import Dmn.Library.BoolText.Meaning
import Dmn.Verification.Dql.UniqueReading
import Dmn.Verification.Lmbcs.RoundTrip
import Dmn.Verification.Query

/-! # What a query finds

The text of a built expression is read as a tree that holds of the same notes as the expression.
A database that reads queries so returns the notes of which the expression holds. -/

namespace Dmn.Dql

open BoolText Exec

/-! ## Truth of an expression -/

mutual

/-- The truth of a built expression, from that of its comparisons and searches. -/
def Expression.holds (truth : List Char → Bool) : Expression → Bool
  | ⟨.comparison, field, op, value, _, _⟩ =>
      (renderValue value).toOption.any fun literal => truth (field ++ ' ' :: (op ++ ' ' :: literal))
  | ⟨.contains, field, _, value, _, _⟩ => (renderValue value).toOption.any fun literal =>
      truth (field ++ ' ' :: (containsWord ++ ' ' :: '(' :: (literal ++ [')'])))
  | ⟨.logicalAnd, _, _, _, _, children⟩ => allHold truth children
  | ⟨.logicalOr, _, _, _, _, children⟩ => anyHolds truth children
  | ⟨.logicalNot, _, _, _, _, children⟩ => !allHold truth children
  | ⟨.raw, _, _, _, _, _⟩ => false

def allHold (truth : List Char → Bool) : List Expression → Bool
  | [] => true
  | child :: rest => child.holds truth && allHold truth rest

def anyHolds (truth : List Char → Bool) : List Expression → Bool
  | [] => false
  | child :: rest => child.holds truth || anyHolds truth rest

end

mutual

def Skeleton.holds (truth : List Char → Bool) : Skeleton → Bool
  | .comparison field op literal =>
      literal.toOption.any fun literal => truth (field ++ ' ' :: (op ++ ' ' :: literal))
  | .contains field literal => literal.toOption.any fun literal =>
      truth (field ++ ' ' :: (containsWord ++ ' ' :: '(' :: (literal ++ [')'])))
  | .not parts => !partsHold truth parts
  | .and parts => partsHold truth parts
  | .or parts => partHolds truth parts
  | .raw _ => false

def partsHold (truth : List Char → Bool) : List Skeleton → Bool
  | [] => true
  | part :: rest => part.holds truth && partsHold truth rest

def partHolds (truth : List Char → Bool) : List Skeleton → Bool
  | [] => false
  | part :: rest => part.holds truth || partHolds truth rest

end

variable {truth : List Char → Bool}

theorem holds_group_and (parts : List Skeleton) :
    (group .and parts).holds truth = partsHold truth parts := by
  unfold group
  split
  · simp [partsHold]
  · rw [Skeleton.holds]

theorem holds_group_or (parts : List Skeleton) :
    (group .or parts).holds truth = partHolds truth parts := by
  unfold group
  split
  · simp [partHolds]
  · rw [Skeleton.holds]

mutual

theorem holds_skeleton (e : Expression) : (skeleton e).holds truth = e.holds truth := by
  match e with
  | ⟨.comparison, _, _, _, _, _⟩ => rw [skeleton, Skeleton.holds, Expression.holds]
  | ⟨.contains, _, _, _, _, _⟩ => rw [skeleton, Skeleton.holds, Expression.holds]
  | ⟨.logicalAnd, _, _, _, _, children⟩ =>
      rw [skeleton, holds_group_and, Expression.holds, partsHold_skeletons children]
  | ⟨.logicalOr, _, _, _, _, children⟩ =>
      rw [skeleton, holds_group_or, Expression.holds, partHolds_skeletons children]
  | ⟨.logicalNot, _, _, _, _, children⟩ =>
      rw [skeleton, Skeleton.holds, Expression.holds, partsHold_skeletons children]
  | ⟨.raw, _, _, _, _, _⟩ => rw [skeleton, Skeleton.holds, Expression.holds]

theorem partsHold_skeletons (es : List Expression) :
    partsHold truth (skeletons es) = allHold truth es := by
  match es with
  | [] => rw [skeletons, partsHold, allHold]
  | e :: es => rw [skeletons, partsHold, allHold, holds_skeleton e, partsHold_skeletons es]

theorem partHolds_skeletons (es : List Expression) :
    partHolds truth (skeletons es) = anyHolds truth es := by
  match es with
  | [] => rw [skeletons, partHolds, anyHolds]
  | e :: es => rw [skeletons, partHolds, anyHolds, holds_skeleton e, partHolds_skeletons es]

end

theorem holds_term (a : Term) : a.skeleton.holds truth = truth a.text := by
  cases a with
  | comparison field op literal =>
      simp [Term.skeleton, Skeleton.holds, Term.text, Term.field, Term.predicate, Except.toOption]
  | contains field literal =>
      simp [Term.skeleton, Skeleton.holds, Term.text, Term.field, Term.predicate, Except.toOption]

mutual

theorem holds_factorSkeleton (f : Factor Term) :
    (factorSkeleton f).holds truth = f.holds fun a => truth a.text := by
  match f with
  | .term a => rw [factorSkeleton, holds_term, Factor.holds]
  | .not f =>
      rw [factorSkeleton, Skeleton.holds, partsHold, partsHold, holds_factorSkeleton f, Factor.holds,
        Bool.and_true]
  | .group d => rw [factorSkeleton, holds_group_or, partHolds_disjParts d, Factor.holds]

theorem partsHold_conjParts (c : Conj Term) :
    partsHold truth (conjParts c) = c.holds fun a => truth a.text := by
  match c with
  | .one f =>
      rw [conjParts, partsHold, partsHold, holds_factorSkeleton f, Conj.holds, Bool.and_true]
  | .and f c =>
      rw [conjParts, partsHold, holds_factorSkeleton f, partsHold_conjParts c, Conj.holds]

theorem partHolds_disjParts (d : Disj Term) :
    partHolds truth (disjParts d) = d.holds fun a => truth a.text := by
  match d with
  | .one c =>
      rw [disjParts, partHolds, partHolds, holds_group_and, partsHold_conjParts c, Disj.holds,
        Bool.or_false]
  | .or c d =>
      rw [disjParts, partHolds, holds_group_and, partsHold_conjParts c, partHolds_disjParts d,
        Disj.holds]

end

/-- The tree that the text of a built expression is read as holds with the expression. -/
theorem Built.holds_iff {e : Expression} (h : Built e) {text : List Char}
    (hrender : render e = .ok text) : ∃ d : Disj Term, lexicon.read text = some d ∧
      ∀ truth : List Char → Bool, (d.holds fun a => truth a.text) = e.holds truth := by
  obtain ⟨d, hd⟩ := h.readsBack text hrender
  refine ⟨d, Lexicon.read_eq_some_iff.mpr hd.text_eq.symm, fun truth => ?_⟩
  rw [← holds_skeleton e, ← hd.skeleton_eq, disjSkeleton, holds_group_or, partHolds_disjParts d]

/-! ## A database that reads queries -/

/-- The text that stands for bytes. -/
def bytesText (bytes : List UInt8) : List Char := bytes.map fun byte => Char.ofNat byte.toNat

/-- What a database with these notes answers: the notes that the tree of the query holds of. The
query is in LMBCS, and `truth` tells which comparisons and searches hold of a note. -/
noncomputable def answer (codePage : CharCode Char UInt8) (ids : List UInt32)
    (truth : UInt32 → List Char → Bool) (query : List UInt8) : Option (List UInt32) :=
  (lexicon.read (bytesText (Lmbcs.toString codePage query))).map fun d =>
    ids.filter fun noteId => d.holds fun a => truth noteId a.text

open Query

variable {Note : Type}

theorem attempts_of_open {env : Query.Env Note} {notes : UInt32 → Option Note}
    (hopen : ∀ tried noteId, env.getNote tried noteId = .ok (notes noteId)) (tried : ℕ)
    (ids : List UInt32) : attempts env tried ids = ids.map fun noteId => .ok (notes noteId) := by
  induction ids generalizing tried with
  | nil => rfl
  | cons noteId ids ih => rw [attempts_cons, hopen, ih, List.map_cons]

theorem collect_of_open (limit : ℕ) (notes : UInt32 → Option Note) (ids : List UInt32) :
    collect limit [] (ids.map fun noteId => .ok (notes noteId)) =
      .ok ((ids.filterMap notes).take limit) := by
  have hall : ∀ a ∈ ids.map (fun noteId => (.ok (notes noteId) : Attempt Note)),
      Attempt.passes a = true := by
    intro a ha
    obtain ⟨noteId, -, rfl⟩ := List.mem_map.mp ha
    rfl
  have hdrop := List.dropWhile_eq_nil_iff.mpr hall
  have hfound : found (ids.map fun noteId => (.ok (notes noteId) : Attempt Note)) =
      ids.filterMap notes := by
    rw [found, List.takeWhile_eq_self_iff.mpr hall, List.filterMap_map]
    rfl
  simp only [collect, hdrop, hfound, List.nil_append]

/-- A query for a built expression returns the first notes of the database of which the expression
holds, in the order of their identifiers, up to the limit. -/
theorem runQuery_finds (env : Query.Env Note) {e : Expression} (hbuilt : Built e)
    {text : List Char} (hrender : render e = .ok text) (hbytes : ∀ c ∈ text, c.toNat < 2 ^ 8)
    (htranslated : Lmbcs.toString env.codePage
      (Lmbcs.fromString env.codePage (Lmbcs.asciiBytes text)) = Lmbcs.asciiBytes text)
    {ids : List UInt32} {truth : UInt32 → List Char → Bool} {notes : UInt32 → Option Note}
    (hhandle : env.getHandle = .ok ())
    (hquery : ∀ query found, answer env.codePage ids truth query = some found →
      ∃ table, env.query query = .ok table ∧ table.ids = found)
    (hopen : ∀ tried noteId, env.getNote tried noteId = .ok (notes noteId)) (limit : ℕ) :
    (exec (runQuery env e limit) {}).1 =
      .ok (((ids.filter fun noteId => e.holds (truth noteId)).filterMap notes).take
        (min maxDqlEntries limit)) := by
  obtain ⟨d, hread, hholds⟩ := hbuilt.holds_iff hrender
  have hanswer : answer env.codePage ids truth
      (Lmbcs.fromString env.codePage (Lmbcs.asciiBytes text)) =
      some (ids.filter fun noteId => e.holds (truth noteId)) := by
    rw [answer, htranslated, bytesText, Lmbcs.map_ofNat_asciiBytes hbytes, hread]
    simp only [hholds, Option.map_some]
  obtain ⟨table, htable, hids⟩ := hquery _ _ hanswer
  rw [(runQuery_result env e limit hrender hhandle htable).1, attempts_of_open hopen, hids,
    collect_of_open]
  rfl

/-- `ne("a", 1)`. -/
def notOne : Expression :=
  { mode := .logicalNot
    children := [{ mode := .comparison, field := ['a'], op := ['='], value := .int 1 }] }

theorem built_notOne : Built notOne := by
  have hne : ne ['a'] (.int 1) = .ok notOne := rfl
  exact .ne hne

def onlyFive (noteId : UInt32) (_ : List Char) : Bool := noteId = 5

/-- A database of three notes, the last of which is deleted when it is opened. -/
noncomputable def readerEnv : Query.Env UInt32 where
  codePage := utf8
  getHandle := .ok ()
  query query := (answer utf8 sampleTable.ids onlyFive query).elim (.error .notFound) fun found =>
    if h : found.Pairwise (· < ·) then .ok ⟨found, h⟩ else .error .notFound
  getNote _ noteId := .ok (if noteId = 7 then none else some noteId)

theorem readerEnv_query (query : List UInt8) (found : List UInt32)
    (h : answer utf8 sampleTable.ids onlyFive query = some found) :
    ∃ table, readerEnv.query query = .ok table ∧ table.ids = found := by
  have hsorted : found.Pairwise (· < ·) := by
    obtain ⟨d, -, rfl⟩ := Option.map_eq_some_iff.mp h
    exact sampleTable.sorted.filter _
  refine ⟨⟨found, hsorted⟩, ?_, rfl⟩
  simp only [readerEnv, h, Option.elim_some, dif_pos hsorted]

theorem runQuery_finds_notOne : (exec (runQuery readerEnv notOne 3) {}).1 = .ok [3] := by
  have hrender : render notOne = .ok "not a = 1".toList := rfl
  have hprintable : ∀ c ∈ "not a = 1".toList, Lmbcs.Printable c :=
    List.all_iff_forall_prop.mp (by decide)
  have hbytes : ∀ c ∈ "not a = 1".toList, c.toNat < 2 ^ 8 :=
    fun c hc => Nat.lt_trans (hprintable c hc).2 (by decide)
  have hfinds := runQuery_finds readerEnv built_notOne hrender hbytes (by decide +kernel) rfl
    readerEnv_query (fun _ _ => rfl) 3
  rw [hfinds]
  rfl

end Dmn.Dql
