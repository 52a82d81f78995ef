import Dmn.Model.Mail
import Dmn.Verification.TextList

/-! # Recipients and header lists

Each address goes to a header list first and to the recipients then. They agree as long as
the recipients take every address that a header list has taken. -/

namespace Dmn.Mail

open Exec Native

variable {env : TextList.Env} {recipients : TextList.Entries}

/-- The addresses of one header list. -/
def sent (header : Header) (added : List (Header × List UInt8)) : TextList.Entries :=
  (added.filter fun entry => entry.1 = header).map Prod.snd

/-- The header lists have taken what was added, and the recipients are these. -/
structure Sound (recipients : TextList.Entries) (mail : Mail) : Prop where
  headers : ∀ header, TextList.Holds (sent header mail.added) (mail.list header)
  recipients : TextList.Holds recipients mail.recipients

/-- The recipients are the addresses of the header lists, in the order they were added. -/
def Consistent (mail : Mail) : Prop :=
  (∀ header, (mail.list header).memory = some (sent header mail.added)) ∧
    mail.recipients.memory = some (mail.added.map Prod.snd)

/-- The recipients take the address if the header list does. -/
def KeepsPace (env : TextList.Env) (s : Called Mail) (op : Op) : Prop :=
  TextList.Accepts env s.calls (s.value.list op.header) op.email →
    TextList.Accepts env (s.calls + 2) s.value.recipients op.email

/-! ## One address -/

/-- The mail after a header list has taken an address. -/
def taken (header : Header) (list : TextList) (address : List UInt8) (mail : Mail) : Mail :=
  { setList header list mail with added := (setList header list mail).added ++ [(header, address)] }

@[simp] theorem list_setList (header : Header) (list : TextList) (mail : Mail) :
    (setList header list mail).list header = list := by
  cases header <;> rfl

theorem list_setList_of_ne {header other : Header} (hne : other ≠ header) (list : TextList)
    (mail : Mail) : (setList header list mail).list other = mail.list other := by
  cases header <;> cases other <;> first | rfl | exact absurd rfl hne

theorem setList_list (header : Header) (mail : Mail) :
    setList header (mail.list header) mail = mail := by
  cases header <;> rfl

theorem added_setList (header : Header) (list : TextList) (mail : Mail) :
    (setList header list mail).added = mail.added := by
  cases header <;> rfl

theorem recipients_setList (header : Header) (list : TextList) (mail : Mail) :
    (setList header list mail).recipients = mail.recipients := by
  cases header <;> rfl

theorem list_taken (header other : Header) (list : TextList) (address : List UInt8) (mail : Mail) :
    (taken header list address mail).list other = (setList header list mail).list other := by
  cases other <;> rfl

theorem added_taken (header : Header) (list : TextList) (address : List UInt8) (mail : Mail) :
    (taken header list address mail).added = mail.added ++ [(header, address)] := by
  rw [taken, added_setList]

theorem Sound.taken {mail : Mail} (h : Sound recipients mail) (header : Header) {list : TextList}
    {address : List UInt8} (hlist : TextList.Holds (sent header mail.added ++ [address]) list) :
    Sound recipients (taken header list address mail) := by
  refine ⟨fun other => ?_, ?_⟩
  · rw [list_taken, added_taken]
    by_cases hsame : other = header
    · subst hsame
      have hsent : sent other (mail.added ++ [(other, address)]) =
          sent other mail.added ++ [address] := by
        simp [sent]
      rwa [list_setList, hsent]
    · have hsent : sent other (mail.added ++ [(header, address)]) = sent other mail.added := by
        simp [sent, Ne.symm hsame]
      rw [list_setList_of_ne hsame, hsent]
      exact h.headers other
  · show TextList.Holds recipients (setList header list mail).recipients
    rw [recipients_setList]
    exact h.recipients

theorem Sound.push {mail : Mail} (h : Sound recipients mail) {list : TextList}
    {address : List UInt8} (hlist : TextList.Holds (recipients ++ [address]) list) :
    Sound (recipients ++ [address]) { mail with recipients := list } := by
  refine ⟨fun header => ?_, hlist⟩
  have hheader := h.headers header
  cases header <;> exact hheader

theorem Op.perform_eq (op : Op) : op.perform env = addToList env op.header op.email := by
  cases op <;> rfl

theorem exec_part {σ τ α : Type} (get : σ → τ) (put : τ → σ → σ) (x : Native.M τ α) (s : Called σ) :
    exec (Native.part get put x) s = ((exec x ⟨s.calls, get s.value⟩).1,
      ⟨(exec x ⟨s.calls, get s.value⟩).2.calls,
        put (exec x ⟨s.calls, get s.value⟩).2.value s.value⟩) := rfl

/-- What one call can do: nothing, add the address to both lists, or to the header list only. -/
theorem step_cases (env : TextList.Env) {s : Called Mail} (h : Sound recipients s.value) (op : Op) :
    let entry := (op.header, Lmbcs.fromString env.codePage op.email)
    (KeepsPace env s op ∧ (step env s op).value = s.value) ∨
      (KeepsPace env s op ∧ (step env s op).value.added = s.value.added ++ [entry] ∧
        Sound (recipients ++ [entry.2]) (step env s op).value) ∨
      (¬ KeepsPace env s op ∧ (step env s op).value.added = s.value.added ++ [entry] ∧
        Sound recipients (step env s op).value) := by
  intro entry
  have hheader := h.headers op.header
  obtain ⟨haccept, hreject⟩ := TextList.exec_pushBack env
    (s := ⟨s.calls, s.value.list op.header⟩) hheader op.email
  unfold step
  rw [op.perform_eq, addToList]
  by_cases haccepts : TextList.Accepts env s.calls (s.value.list op.header) op.email
  · obtain ⟨list, hexec, hlist⟩ := haccept haccepts
    have htaken : Sound recipients (taken op.header list entry.2 s.value) := h.taken op.header hlist
    have hrecipients : (taken op.header list entry.2 s.value).recipients = s.value.recipients :=
      recipients_setList op.header list s.value
    obtain ⟨haccept', hreject'⟩ := TextList.exec_pushBack env
      (s := ⟨s.calls + 2, (taken op.header list entry.2 s.value).recipients⟩)
      htaken.recipients op.email
    have hadded := added_taken op.header list entry.2 s.value
    have hupdate : exec (Native.update fun mail : Mail => { mail with added := mail.added ++ [entry] })
        ⟨s.calls + 2, setList op.header list s.value⟩ =
          (.ok (), ⟨s.calls + 2, taken op.header list entry.2 s.value⟩) := rfl
    rw [exec_bind, exec_part, hexec]
    simp only
    rw [exec_bind_of_ok hupdate, exec_part]
    rw [hrecipients] at haccept' hreject'
    by_cases haccepts' : TextList.Accepts env (s.calls + 2) s.value.recipients op.email
    · obtain ⟨list', hexec', hlist'⟩ := haccept' haccepts'
      rw [hrecipients, hexec']
      exact .inr (.inl ⟨fun _ => haccepts', hadded, htaken.push hlist'⟩)
    · obtain ⟨stop, calls, hexec'⟩ := hreject' haccepts'
      rw [hrecipients, hexec']
      refine .inr (.inr ⟨fun hpace => haccepts' (hpace haccepts), hadded, ?_⟩)
      refine ⟨fun header => ?_, h.recipients⟩
      have hheader := htaken.headers header
      cases header <;> exact hheader
  · obtain ⟨stop, calls, hexec⟩ := hreject haccepts
    refine .inl ⟨fun h => absurd h haccepts, ?_⟩
    rw [exec_bind, exec_part, hexec]
    exact setList_list op.header s.value

/-! ## Runs -/

/-- There are addresses in the header lists that the recipients lack. -/
def Behind (mail : Mail) : Prop :=
  ∃ recipients, Sound recipients mail ∧ recipients.length < mail.added.length

theorem Sound.consistent_iff {mail : Mail} (h : Sound recipients mail) :
    Consistent mail ↔ recipients = mail.added.map Prod.snd := by
  constructor
  · exact fun hconsistent => Option.some.inj (h.recipients.memory.symm.trans hconsistent.2)
  · rintro rfl
    exact ⟨fun header => (h.headers header).memory, h.recipients.memory⟩

theorem Behind.not_consistent {mail : Mail} (h : Behind mail) : ¬ Consistent mail := by
  obtain ⟨recipients, hsound, hlt⟩ := h
  rw [hsound.consistent_iff]
  rintro rfl
  rw [List.length_map] at hlt
  exact Nat.lt_irrefl _ hlt

theorem Behind.step {s : Called Mail} (h : Behind s.value) (op : Op) :
    Behind (step env s op).value := by
  obtain ⟨recipients, hsound, hlt⟩ := h
  rcases step_cases env hsound op with
    ⟨_, hsame⟩ | ⟨_, hadded, hnext⟩ | ⟨_, hadded, hnext⟩
  · rw [hsame]
    exact ⟨recipients, hsound, hlt⟩
  · refine ⟨_, hnext, ?_⟩
    rw [hadded, List.length_append, List.length_append]
    exact Nat.add_lt_add_right hlt 1
  · refine ⟨_, hnext, ?_⟩
    rw [hadded, List.length_append]
    exact Nat.lt_of_lt_of_le hlt (Nat.le_add_right _ _)

theorem Behind.run {s : Called Mail} (h : Behind s.value) (ops : List Op) :
    Behind (Run.after (Mail.step env) s ops).value := by
  apply Run.after_of_invariant (I := fun s : Called Mail => Behind s.value)
  · exact fun _ op h => h.step op
  · exact h

/-- The recipients agree with the header lists after a run just if they have always kept pace. -/
theorem consistent_run_of_sound {s : Called Mail}
    (h : Sound (s.value.added.map Prod.snd) s.value) (ops : List Op) :
    Consistent (Run.after (step env) s ops).value ↔
      Run.Along (step env) (KeepsPace env) s ops := by
  induction ops generalizing s with
  | nil => exact ⟨fun _ => trivial, fun _ => h.consistent_iff.mpr rfl⟩
  | cons op ops ih =>
      rcases step_cases env h op with
        ⟨hpace, hsame⟩ | ⟨hpace, hadded, hnext⟩ | ⟨hpace, hadded, hnext⟩
      · have hsound : Sound ((step env s op).value.added.map Prod.snd) (step env s op).value := by
          rw [hsame]
          exact h
        exact (ih hsound).trans ⟨fun hrest => ⟨hpace, hrest⟩, fun hall => hall.2⟩
      · have hsound : Sound ((step env s op).value.added.map Prod.snd) (step env s op).value := by
          rw [hadded, List.map_append]
          exact hnext
        exact (ih hsound).trans ⟨fun hrest => ⟨hpace, hrest⟩, fun hall => hall.2⟩
      · have hbehind : Behind (step env s op).value := by
          refine ⟨_, hnext, ?_⟩
          rw [hadded, List.length_append, List.length_map]
          exact Nat.lt_succ_self _
        exact ⟨fun hconsistent => absurd hconsistent (hbehind.run ops).not_consistent,
          fun hall => absurd hall.1 hpace⟩

theorem sound_of_construct {σ : Type} {s t : Called σ} {mail : Mail}
    (h : exec (construct env) s = (.ok mail, t)) :
    mail.added = [] ∧ Sound [] mail := by
  obtain ⟨sendTo, _, hsendTo, h⟩ := exec_bind_eq_ok h
  obtain ⟨copyTo, _, hcopyTo, h⟩ := exec_bind_eq_ok h
  obtain ⟨blindCopyTo, _, hblindCopyTo, h⟩ := exec_bind_eq_ok h
  obtain ⟨recipients, _, hrecipients, h⟩ := exec_bind_eq_ok h
  cases h
  refine ⟨rfl, fun header => ?_, TextList.holds_of_construct hrecipients⟩
  cases header
  · exact TextList.holds_of_construct hsendTo
  · exact TextList.holds_of_construct hcopyTo
  · exact TextList.holds_of_construct hblindCopyTo

/-- The recipients of a new mail agree with its header lists after a run just if they take
every address of the run that a header list takes. -/
theorem consistent_run_iff {σ : Type} {s t : Called σ} {mail : Mail}
    (h : exec (construct env) s = (.ok mail, t)) (n : Nat) (ops : List Op) :
    Consistent (Run.after (step env) ⟨n, mail⟩ ops).value ↔
      Run.Along (step env) (KeepsPace env) ⟨n, mail⟩ ops := by
  obtain ⟨hadded, hsound⟩ := sound_of_construct h
  apply consistent_run_of_sound
  show Sound (mail.added.map Prod.snd) mail
  rw [hadded]
  exact hsound

def emptyMail : Mail := ⟨⟨some [], 4⟩, ⟨some [], 4⟩, ⟨some [], 4⟩, ⟨some [], 4⟩, []⟩

theorem consistent_run_iff_sample :
    Consistent (Run.after (step TextList.sampleEnv) ⟨4, emptyMail⟩ [.addCopyTo [0x61]]).value ↔
      Run.Along (step TextList.sampleEnv) (KeepsPace TextList.sampleEnv) ⟨4, emptyMail⟩
        [.addCopyTo [0x61]] :=
  have h : exec (construct TextList.sampleEnv) (⟨0, ()⟩ : Called Unit) =
    (.ok emptyMail, ⟨4, ()⟩) := rfl
  consistent_run_iff h 4 [.addCopyTo [0x61]]

/-- The fourth native call fails. -/
def fullEnv : TextList.Env :=
  { TextList.sampleEnv with native := ⟨fun call => if call = 3 then .other 0 else .noError,
    fun _ _ => 0⟩ }

/-- The address stays in the header list when the recipients do not take it. -/
theorem not_consistent_of_recipients : ¬ ∀ (env : TextList.Env) (mail : Mail) (s t : Called Unit),
    exec (construct env) s = (.ok mail, t) → ∀ n ops,
      Consistent (Run.after (step env) ⟨n, mail⟩ ops).value := by
  intro h
  have hconsistent := h fullEnv emptyMail ⟨4, ()⟩ ⟨8, ()⟩ rfl 0 [.addSendTo [0x61]]
  have hrecipients : some [] = some [Lmbcs.fromString fullEnv.codePage [0x61]] := hconsistent.2
  cases hrecipients

end Dmn.Mail
