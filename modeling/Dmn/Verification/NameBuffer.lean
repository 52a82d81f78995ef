import Dmn.Library.Terminated
import Dmn.Model.NameBuffer
import Dmn.Verification.Acl.NativeName
import Dmn.Verification.Native

/-! # Reading names out of their buffers

Three of the four functions cut the buffer off at the terminator. The fourth one converts all of
it, so that the zeros behind the name come out as characters. -/

namespace Dmn.NameBuffer

open Exec CharCode

/-- The functions that read a name. -/
inductive Reader where
  | userName
  | path
  | role (key : ℕ)
  | adminServer
  deriving DecidableEq, Repr

namespace Reader

/-- The path is that before its separators are replaced. -/
def read (env : Env) : Reader → M (List UInt8)
  | userName => getUsername env
  | path => do
      let rawPath ← rawPath env
      pure (Lmbcs.toString env.codePage rawPath)
  | role key => roleText env key
  | adminServer => NameBuffer.adminServer env

/-- What the native call writes in front of its terminator. -/
def name (reader : Reader) (names : Names) : List UInt8 :=
  Acl.cString (match reader with
    | userName => names.userName
    | path => names.path
    | role key => names.roleName key
    | adminServer => names.adminServer)

def size : Reader → ℕ
  | userName => maxUserName + 1
  | path => maxPath
  | role _ => privStringMax
  | adminServer => maxUserName

end Reader

/-- The native call succeeds, and the name with its terminator fits the buffer. -/
structure Ready (env : Env) (reader : Reader) (s : Called Names) : Prop where
  status : env.native.status s.calls = .noError
  fits : (reader.name s.value).length < reader.size
  key : ∀ key, reader = .role key → key < Acl.RoleMap.capacity

variable {env : Env} {reader : Reader} {s t : Called Names} {cs : List Char}

/-! ## Buffers -/

theorem zero_notMem_cString (bytes : List UInt8) : 0 ∉ Acl.cString bytes :=
  Terminated.notMem_takeWhile 0 bytes

/-- The terminator ends the C string, whatever is behind it. -/
theorem cString_append_zeros {bytes : List UInt8} (h : 0 ∉ bytes) (n : ℕ) :
    Acl.cString (bytes ++ List.replicate n 0) = bytes := by
  have hzeros : (List.replicate n (0 : UInt8)).takeWhile (· ≠ 0) = [] := by
    cases n <;> rfl
  rw [Acl.cString, Terminated.takeWhile_append h, hzeros, List.append_nil]

theorem resized_eq (buffer : List UInt8) : resized buffer = Acl.cString buffer :=
  Terminated.take_length_takeWhile 0 buffer

theorem exec_written {size : ℕ} {name : List UInt8} (h : (Acl.cString name).length < size)
    (s : Called Names) : exec (written size name) s =
      (.ok (Acl.cString name ++ List.replicate (size - (Acl.cString name).length) 0), s) := by
  rw [written]
  simp only [if_neg (Nat.not_le.mpr h)]
  rfl

theorem cString_written (size : ℕ) (name : List UInt8) :
    Acl.cString (Acl.cString name ++ List.replicate (size - (Acl.cString name).length) 0) =
      Acl.cString name :=
  cString_append_zeros (zero_notMem_cString name) _

/-! ## The four functions -/

/-- What the function converts: the name, and for the administration server its padding too. -/
def converted (reader : Reader) (names : Names) : List UInt8 :=
  if reader = .adminServer then
    reader.name names ++ List.replicate (maxUserName - (reader.name names).length) 0
  else reader.name names

theorem exec_rawPath (h : Ready env .path s) :
    exec (rawPath env) s = (.ok (Reader.path.name s.value), { s with calls := s.calls + 1 }) := by
  have hwritten : exec (written maxPath s.value.path) { s with calls := s.calls + 1 } = _ :=
    exec_written h.fits _
  rw [rawPath, Native.exec_call_bind h.status, exec_bind_of_ok (Native.exec_value _),
    exec_bind_of_ok hwritten, resized_eq, cString_written]
  rfl

theorem exec_read (h : Ready env reader s) : (exec (reader.read env) s).1 =
    .ok (Lmbcs.toString env.codePage (converted reader s.value)) := by
  have hfits := h.fits
  let next : Called Names := { s with calls := s.calls + 1 }
  cases reader with
  | userName =>
      have hwritten : exec (written (maxUserName + 1) s.value.userName) next = _ :=
        exec_written hfits next
      rw [Reader.read, getUsername, Native.exec_call_bind h.status,
        exec_bind_of_ok (Native.exec_value _), exec_bind_of_ok hwritten, resized_eq,
        cString_written]
      rfl
  | path =>
      rw [Reader.read, exec_bind_of_ok (exec_rawPath h)]
      rfl
  | role key =>
      have hwritten : exec (written privStringMax (s.value.roleName key)) next = _ :=
        exec_written hfits next
      rw [Reader.read, roleText, if_neg (Nat.not_le.mpr (h.key key rfl)),
        exec_bind_of_ok (Native.exec_call s), h.status]
      simp only [Status.isNotFound, Bool.false_eq_true, if_false]
      rw [exec_bind_of_ok (Status.exec_throwIfError_noError _ _),
        exec_bind_of_ok (Native.exec_value _), exec_bind_of_ok hwritten, cString_written]
      rfl
  | adminServer =>
      have hwritten : exec (written maxUserName s.value.adminServer) next = _ :=
        exec_written hfits next
      rw [Reader.read, adminServer, Native.exec_call_bind h.status,
        exec_bind_of_ok (Native.exec_value _), exec_bind_of_ok hwritten]
      rfl

/-- The text of a role goes to its constructor. -/
theorem get_eq_make {acl : Acl.Env} {state : Acl.NativeAcl} {key : ℕ} {stored : List UInt8}
    (hkey : key < Acl.RoleMap.capacity) (hcodePage : acl.codePage = env.codePage)
    (hstored : state.privNames (key + Acl.bitPrivCount) = some stored)
    (h : Ready env (.role key) s) (hname : s.value.roleName key = stored) :
    Acl.RoleMap.get acl state key = (exec (roleText env key) s).1 >>= Acl.Role.make := by
  have htext : (exec (roleText env key) s).1 = _ := exec_read h
  rw [Acl.RoleMap.get, if_neg (Nat.not_le.mpr hkey), hstored, htext, hcodePage, ← hname]
  rfl

/-! ## Padding -/

/-- The name is converted to more than the twice `maxUserName` bytes that there is room for, and to
no more of it in its padded buffer than in twice its own length. -/
def CutShort (codePage : CharCode Char UInt8) (cs : List Char) : Prop :=
  2 * maxUserName < (utf8.encodeAll cs).length ∧
    utf8.fitting (2 * maxUserName) cs = utf8.fitting (2 * (codePage.encodeAll cs).length) cs

instance (codePage : CharCode Char UInt8) (cs : List Char) : Decidable (CutShort codePage cs) := by
  unfold CutShort
  infer_instance

/-- The zero byte is the character NUL. -/
def nul : Char := Char.ofNat 0

theorem encodeAll_append_zeros {codePage : CharCode Char UInt8} (hnul : codePage.encode nul = [0])
    (cs : List Char) (n : ℕ) : codePage.encodeAll cs ++ List.replicate n 0 =
      codePage.encodeAll (cs ++ List.replicate n nul) := by
  have hzeros : List.replicate n 0 = codePage.encodeAll (List.replicate n nul) := by
    induction n with
    | zero => rfl
    | succ n ih => rw [List.replicate_succ, List.replicate_succ, encodeAll_cons, hnul, ih]; rfl
  rw [hzeros, encodeAll_append]

/-- Behind a text that fits there is room for one of the zeros, at least. -/
theorem fitting_append_nul_iff {codePage : CharCode Char UInt8}
    (hlength : (codePage.encodeAll cs).length < maxUserName) :
    utf8.fitting (2 * maxUserName)
        (cs ++ List.replicate (maxUserName - (codePage.encodeAll cs).length) nul) =
      utf8.fitting (2 * (codePage.encodeAll cs).length) cs ↔ CutShort codePage cs := by
  by_cases hroom : 2 * maxUserName < (utf8.encodeAll cs).length
  · rw [fitting_append_of_lt utf8 hroom, CutShort, and_iff_right hroom]
  · refine iff_of_false (fun h => ?_) fun h => hroom h.1
    rw [fitting_append_of_le utf8 (Nat.le_of_not_lt hroom)] at h
    have hprefix := (utf8.fitting_prefix (2 * (codePage.encodeAll cs).length) cs).length_le
    have hself : utf8.fitting (2 * (codePage.encodeAll cs).length) cs = cs := by
      refine (utf8.fitting_prefix _ _).eq_of_length_le ?_
      rw [← h, List.length_append]
      exact Nat.le_add_right _ _
    have hfits := (utf8.fitting_eq_self_iff _ cs).mp hself
    obtain ⟨n, hn⟩ : ∃ n, maxUserName - (codePage.encodeAll cs).length = n + 1 :=
      Nat.exists_eq_succ_of_ne_zero (by omega)
    have hone : (utf8.encode nul).length = 1 := rfl
    rw [← h, hn, List.replicate_succ, fitting, if_pos (by omega), List.length_append,
      List.length_cons] at hprefix
    omega

theorem toString_padded_eq_iff {codePage : CharCode Char UInt8}
    (hnul : codePage.encode nul = [0]) (cs : List Char)
    (hlength : (codePage.encodeAll cs).length < maxUserName) :
    Lmbcs.toString codePage (codePage.encodeAll cs ++
        List.replicate (maxUserName - (codePage.encodeAll cs).length) 0) =
      Lmbcs.toString codePage (codePage.encodeAll cs) ↔ CutShort codePage cs := by
  have hsize : maxUserName = 256 := rfl
  have hpadded : (codePage.encodeAll
      (cs ++ List.replicate (maxUserName - (codePage.encodeAll cs).length) nul)).length =
        maxUserName := by
    rw [← encodeAll_append_zeros hnul, List.length_append, List.length_replicate]
    omega
  have hmod : ∀ n, n ≤ maxUserName → n * 2 % 2 ^ 16 = 2 * n := by
    intro n hn
    omega
  rw [encodeAll_append_zeros hnul, Lmbcs.toString_encodeAll codePage _ (by rw [hpadded]; decide),
    Lmbcs.toString_encodeAll codePage cs (by omega), hpadded, hmod _ (Nat.le_refl _),
    hmod _ (Nat.le_of_lt hlength), utf8.encodeAll_injective.eq_iff, fitting_append_nul_iff hlength]

/-! ## Setting the administration server -/

/-- The text that the server is set to. -/
def canonicalForm (env : Env) (server : List UInt8) : List UInt8 :=
  if server = [] then []
  else Acl.cString (env.canonicalize (Acl.cString (Lmbcs.fromString env.codePage server)))

theorem adminServer_of_aclSetAdminServer {server : List UInt8} {message : String}
    (h : exec (do
      let result ← aclSetAdminServer env server
      result.throwIfError message) s = (.ok (), t)) : t.value.adminServer = Acl.cString server := by
  obtain ⟨result, u, hset, hthrow⟩ := exec_bind_eq_ok h
  rw [Status.exec_throwIfError] at hthrow
  rw [aclSetAdminServer, exec_bind_of_ok (Native.exec_call s)] at hset
  cases herror : (env.native.status s.calls).isError with
  | true =>
      rw [herror, if_pos rfl] at hset
      cases hset
      rw [herror, if_pos rfl] at hthrow
      cases hthrow
  | false =>
      rw [herror, if_neg Bool.false_ne_true] at hset
      cases hset
      rw [herror, if_neg Bool.false_ne_true] at hthrow
      cases hthrow
      rfl

theorem name_of_setAdminServer {server : List UInt8}
    (h : exec (setAdminServer env server) s = (.ok (), t)) :
    Reader.adminServer.name t.value = canonicalForm env server := by
  have hstored : t.value.adminServer = canonicalForm env server := by
    unfold setAdminServer at h
    unfold canonicalForm
    by_cases hempty : server = []
    · rw [if_pos hempty] at h ⊢
      rw [adminServer_of_aclSetAdminServer h, hempty]
      rfl
    · rw [if_neg hempty] at h ⊢
      obtain ⟨_, _, _, h⟩ := exec_bind_eq_ok h
      obtain ⟨_, _, _, h⟩ := exec_bind_eq_ok h
      obtain ⟨canonical, _, hwritten, h⟩ := exec_bind_eq_ok h
      rw [adminServer_of_aclSetAdminServer h]
      unfold written at hwritten
      simp only at hwritten
      split at hwritten
      · cases hwritten
      · cases hwritten
        exact cString_written _ _
  have hcanonical : Acl.cString (canonicalForm env server) = canonicalForm env server := by
    unfold canonicalForm
    split
    · rfl
    · exact Acl.cString_cString _
  rw [Reader.name, hstored, hcanonical]

/-! ## What is read -/

/-- The function returns the translation of the name. -/
def ReturnsName (env : Env) (reader : Reader) (s : Called Names) : Prop :=
  (exec (reader.read env) s).1 = .ok (Lmbcs.toString env.codePage (reader.name s.value))

theorem returnsName_iff_padded (h : Ready env reader s) : ReturnsName env reader s ↔
    Lmbcs.toString env.codePage (converted reader s.value) =
      Lmbcs.toString env.codePage (reader.name s.value) := by
  rw [ReturnsName, exec_read h, Except.ok.injEq]

/-- Every function but `admin_server` returns the name; that one does so where the padding is cut
off with a part of the name. It reads the canonical form of a name that was set, and the empty one
after it was cleared. -/
theorem returnsName_iff (env : Env) (hnul : env.codePage.encode nul = [0]) :
    (∀ reader s cs, Ready env reader s →
      (reader = .adminServer → reader.name s.value = env.codePage.encodeAll cs) →
        (ReturnsName env reader s ↔ reader ≠ .adminServer ∨ CutShort env.codePage cs)) ∧
    ∀ server s t cs, exec (setAdminServer env server) s = (.ok (), t) →
      Ready env .adminServer t → canonicalForm env server = env.codePage.encodeAll cs →
        ((exec (adminServer env) t).1 =
            .ok (Lmbcs.toString env.codePage (canonicalForm env server)) ↔
          CutShort env.codePage cs) := by
  have hadmin : ∀ s cs, Ready env .adminServer s →
      Reader.adminServer.name s.value = env.codePage.encodeAll cs →
        (ReturnsName env .adminServer s ↔ CutShort env.codePage cs) := by
    intro s cs hready hname
    have hfits : (Reader.adminServer.name s.value).length < maxUserName := hready.fits
    rw [returnsName_iff_padded hready, converted, if_pos rfl, hname]
    rw [hname] at hfits
    exact toString_padded_eq_iff hnul cs hfits
  constructor
  · intro reader s cs hready hname
    by_cases hreader : reader = .adminServer
    · subst hreader
      rw [hadmin s cs hready (hname rfl)]
      simp
    · refine iff_of_true ?_ (.inl hreader)
      rw [returnsName_iff_padded hready, converted, if_neg hreader]
  · intro server s t cs hset hready hcanonical
    have hname := name_of_setAdminServer hset
    rw [← hname]
    exact hadmin t cs hready (hname.trans hcanonical)

def sampleEnv : Env where
  native := ⟨fun _ => .noError, fun _ _ => 0⟩
  codePage := utf8
  canonicalize name := name

/-- No name is set. -/
def noNames : Called Names := ⟨0, ⟨[], [], fun _ => [], []⟩⟩

theorem ready_noNames : Ready sampleEnv .adminServer noNames := ⟨rfl, by decide, nofun⟩

/-- The server is set to a name of one character. -/
def oneName : Called Names := (exec (setAdminServer sampleEnv [0x41]) noNames).2

theorem ready_oneName : Ready sampleEnv .adminServer oneName := ⟨rfl, by decide, nofun⟩

theorem returnsName_iff_oneName :
    (ReturnsName sampleEnv .adminServer oneName ↔
      Reader.adminServer ≠ .adminServer ∨ CutShort utf8 ['A']) ∧
    ((exec (adminServer sampleEnv) oneName).1 =
        .ok (Lmbcs.toString utf8 (canonicalForm sampleEnv [0x41])) ↔ CutShort utf8 ['A']) :=
  have hname : Reader.adminServer.name oneName.value = utf8.encodeAll ['A'] := by decide
  have hcanonical : canonicalForm sampleEnv [0x41] = utf8.encodeAll ['A'] := by decide
  ⟨(returnsName_iff sampleEnv rfl).1 .adminServer oneName ['A'] ready_oneName fun _ => hname,
    (returnsName_iff sampleEnv rfl).2 [0x41] noNames oneName ['A'] (Prod.ext rfl rfl) ready_oneName
      hcanonical⟩

/-- After the server was cleared, 256 characters NUL are read. -/
theorem not_returnsName_cleared : ¬ ∀ (env : Env) (reader : Reader) (s : Called Names),
    env.codePage.encode nul = [0] → Ready env reader s → ReturnsName env reader s := by
  intro h
  have hreturns := h sampleEnv .adminServer noNames rfl ready_noNames
  rw [returnsName_iff_padded ready_noNames] at hreturns
  have hnul : utf8.encode nul = [0] := rfl
  have hcut := (toString_padded_eq_iff hnul [] (by decide)).mp hreturns
  exact absurd hcut (by decide)

end Dmn.NameBuffer
