import Mathlib.Data.List.TakeWhile
import Dmn.Library.Terminated
import Dmn.Model.Acl
import Dmn.Verification.Lmbcs.RoundTrip

/-! # Names as C strings

A name goes to the native side as a C string in LMBCS. What comes back of it is always a
beginning of the name. -/

namespace Dmn

open CharCode

namespace Lmbcs

/-- A zero byte stands for itself. -/
def KeepsZero (codePage : CharCode Char UInt8) : Prop :=
  ∀ c, 0 ∈ codePage.encode c → codePage.encode c = [0]

theorem keepsZero_utf8 : KeepsZero utf8 := fun _ hzero => utf8_encode_of_mem (by decide) hzero

end Lmbcs

namespace Acl

theorem cString_cString (bytes : List UInt8) : cString (cString bytes) = cString bytes :=
  List.takeWhile_idem

theorem cString_prefix (bytes : List UInt8) : cString bytes <+: bytes := List.takeWhile_prefix _

theorem cString_encodeAll {codePage : CharCode Char UInt8} (hzero : Lmbcs.KeepsZero codePage)
    (cs : List Char) : ∃ front, front <+: cs ∧
      cString (codePage.encodeAll cs) = codePage.encodeAll front := by
  induction cs with
  | nil => exact ⟨[], List.nil_prefix, rfl⟩
  | cons c cs ih =>
      obtain ⟨front, hprefix, heq⟩ := ih
      by_cases h : 0 ∈ codePage.encode c
      · refine ⟨[], List.nil_prefix, ?_⟩
        rw [encodeAll_cons, hzero c h]
        rfl
      · refine ⟨c :: front, List.cons_prefix_cons.mpr ⟨rfl, hprefix⟩, ?_⟩
        rw [cString] at heq ⊢
        rw [encodeAll_cons, Terminated.takeWhile_append h, heq, encodeAll_cons]

variable (env : Env)

/-- What comes back of a name from the native side. -/
def carried (name : List UInt8) : List UInt8 :=
  Lmbcs.toString env.codePage (cString (Lmbcs.fromString env.codePage name))

/-- The name is carried unchanged to the native side, as a C string, and back. -/
def Carried (name : List UInt8) : Prop := carried env name = name

instance (name : List UInt8) : Decidable (Carried env name) := by unfold Carried; infer_instance

variable {env}

/-- Nothing is added to a name on its way. -/
theorem carried_prefix (hzero : Lmbcs.KeepsZero env.codePage) (name : List UInt8) :
    carried env name <+: name := by
  obtain ⟨cs, hcs, hsent⟩ := Lmbcs.exists_fromString_eq env.codePage name
  obtain ⟨front, hfront, hcut⟩ := cString_encodeAll hzero cs
  have hlength : (env.codePage.encodeAll front).length < 2 ^ 16 := by
    have hshorter := cString_prefix (Lmbcs.fromString env.codePage name) |>.length_le
    have hlimit := Lmbcs.length_fromString_lt env.codePage name
    rw [hsent, hcut] at hshorter
    rw [hsent] at hlimit
    omega
  have hback := Lmbcs.toString_encodeAll env.codePage front hlength
  rw [carried, hsent, hcut, hback]
  refine List.IsPrefix.trans ?_ (hcs.trans (List.take_prefix _ _))
  exact encodeAll_prefix utf8 ((utf8.fitting_prefix _ _).trans hfront)

end Acl

end Dmn
