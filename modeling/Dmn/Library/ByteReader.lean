import Mathlib.Tactic.TypeStar

/-! # Readers of byte sequences

A reader takes what it reads off the front of the input. It inverts an encoding if it gives
back what was encoded, whatever follows. -/

namespace Dmn

abbrev ByteReader (α : Type) := StateT (List UInt8) Option α

namespace ByteReader

variable {α β : Type}

/-- The next `n` bytes, which must be there. -/
def bytes (n : Nat) : ByteReader (List UInt8) := fun input =>
  if n ≤ input.length then some (input.take n, input.drop n) else none

/-- One reader after the other, in the order of the list. -/
def each (read : α → ByteReader β) : List α → ByteReader (List β)
  | [] => pure []
  | a :: as => do
      let b ← read a
      let bs ← each read as
      pure (b :: bs)

/-- The same reader `n` times. -/
def times (read : ByteReader β) (n : Nat) : ByteReader (List β) :=
  each (fun _ => read) (List.replicate n ())

/-- The reader gets `a` back from `text`. -/
def Inverts (read : ByteReader α) (text : List UInt8) (a : α) : Prop :=
  ∀ rest, read.run (text ++ rest) = some (a, rest)

theorem Inverts.run {read : ByteReader α} {text : List UInt8} {a : α} (h : Inverts read text a) :
    read.run text = some (a, []) := by
  have hrun := h []
  rwa [List.append_nil] at hrun

theorem Inverts.pure (a : α) : Inverts (Pure.pure a) [] a := fun _ => rfl

theorem Inverts.bytes (text : List UInt8) : Inverts (ByteReader.bytes text.length) text text := by
  intro rest
  show (if text.length ≤ (text ++ rest).length then _ else _) = _
  rw [if_pos (by simp), List.take_left, List.drop_left]

theorem Inverts.bind {read : ByteReader α} {next : α → ByteReader β} {first second : List UInt8}
    {a : α} {b : β} (hread : Inverts read first a) (hnext : Inverts (next a) second b) :
    Inverts (read >>= next) (first ++ second) b := by
  intro rest
  rw [StateT.run_bind, List.append_assoc, hread (second ++ rest)]
  exact hnext rest

/-- A reader whose result is only checked or unpacked. -/
theorem Inverts.bind_pure {read : ByteReader α} {next : α → ByteReader β} {text : List UInt8}
    {a : α} {b : β} (hread : Inverts read text a) (hnext : next a = Pure.pure b) :
    Inverts (read >>= next) text b := by
  have hdone : Inverts (next a) [] b := by
    rw [hnext]
    exact .pure b
  have hall := hread.bind hdone
  rwa [List.append_nil] at hall

theorem Inverts.each {read : α → ByteReader β} {text : α → List UInt8} {value : α → β}
    {as : List α} (h : ∀ a ∈ as, Inverts (read a) (text a) (value a)) :
    Inverts (ByteReader.each read as) (as.flatMap text) (as.map value) := by
  induction as with
  | nil => exact .pure []
  | cons a as ih =>
      have htail := ih fun x hx => h x (List.mem_cons_of_mem a hx)
      exact (h a List.mem_cons_self).bind (htail.bind_pure rfl)

theorem Inverts.each_map {γ : Type} {read : γ → ByteReader β} {text : α → List UInt8}
    {value : α → β} {f : α → γ} {as : List α}
    (h : ∀ a ∈ as, Inverts (read (f a)) (text a) (value a)) :
    Inverts (ByteReader.each read (as.map f)) (as.flatMap text) (as.map value) := by
  have hmap : ByteReader.each read (as.map f) = ByteReader.each (fun a => read (f a)) as := by
    clear h
    induction as with
    | nil => rfl
    | cons a as ih => simp only [List.map_cons, ByteReader.each, ih]
  rw [hmap]
  exact .each h

theorem Inverts.times {read : ByteReader β} {text : α → List UInt8} {value : α → β}
    {as : List α} (h : ∀ a ∈ as, Inverts read (text a) (value a)) :
    Inverts (ByteReader.times read as.length) (as.flatMap text) (as.map value) := by
  rw [ByteReader.times, ← List.map_const']
  exact .each_map h

end ByteReader

end Dmn
