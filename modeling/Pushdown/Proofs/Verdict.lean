import Mathlib.Data.List.Forall2

/-! Verdicts of checks. A check ends in a value or in an error, and a verdict says what is known of either. -/

namespace Pushdown

variable {ε α β : Type}

/-- The check ends in a value that is `good` or in an error that is `bad`. -/
def Meets (good : α → Prop) (bad : ε → Prop) : Except ε α → Prop
  | .ok value => good value
  | .error error => bad error

theorem Meets.mono {good good' : α → Prop} {bad bad' : ε → Prop} {check : Except ε α}
    (h : Meets good bad check) (hgood : ∀ value, good value → good' value)
    (hbad : ∀ error, bad error → bad' error) : Meets good' bad' check := by
  cases check with
  | error error => exact hbad error h
  | ok value => exact hgood value h

theorem Meets.imp {good good' : α → Prop} {bad : ε → Prop} {check : Except ε α}
    (h : Meets good bad check) (hgood : ∀ value, good value → good' value) : Meets good' bad check :=
  h.mono hgood fun _ => id

theorem Meets.ite {good : α → Prop} {bad : ε → Prop} {condition : Prop} [Decidable condition]
    {yes no : Except ε α} (hyes : condition → Meets good bad yes) (hno : ¬ condition → Meets good bad no) :
    Meets good bad (if condition then yes else no) := by
  by_cases h : condition
  · rw [if_pos h]
    exact hyes h
  · rw [if_neg h]
    exact hno h

theorem Meets.bind {good : α → Prop} {good' : β → Prop} {bad : ε → Prop} {check : Except ε α}
    {next : α → Except ε β} (h : Meets good bad check)
    (hnext : ∀ value, good value → Meets good' bad (next value)) : Meets good' bad (check >>= next) := by
  cases check with
  | error error => exact h
  | ok value => exact hnext value h

/-- A fold keeps an invariant of the members that it has passed. -/
theorem Meets.foldlM {bad : ε → Prop} {step : β → α → Except ε β} {members : List α}
    (inv : List α → β → Prop) {start : β} (hstart : inv [] start)
    (hstep : ∀ passed member rest value, members = passed ++ member :: rest → inv passed value →
      Meets (inv (passed ++ [member])) bad (step value member)) :
    Meets (inv members) bad (members.foldlM step start) := by
  -- The induction is on the members that are left, and the invariant on those that have been passed.
  have hrun : ∀ rest passed value, members = passed ++ rest → inv passed value →
      Meets (inv members) bad (rest.foldlM step value) := by
    intro rest
    induction rest with
    | nil =>
      intro passed value hmembers hvalue
      rw [List.append_nil] at hmembers
      exact hmembers ▸ hvalue
    | cons member rest ih =>
      intro passed value hmembers hvalue
      rw [List.foldlM_cons]
      refine (hstep passed member rest value hmembers hvalue).bind fun value' hvalue' => ?_
      exact ih (passed ++ [member]) value' (by simp [hmembers]) hvalue'
  exact hrun members [] start rfl hstart

theorem Meets.forM {bad : ε → Prop} {check : α → Except ε PUnit} {good : α → Prop} {members : List α}
    (h : ∀ member ∈ members, Meets (fun _ => good member) bad (check member)) :
    Meets (fun _ => ∀ member ∈ members, good member) bad (members.forM check) := by
  induction members with
  | nil => exact fun _ hmem => absurd hmem List.not_mem_nil
  | cons member rest ih =>
    obtain ⟨hmember, hrest⟩ := List.forall_mem_cons.1 h
    refine hmember.bind fun _ hgood => (ih hrest).imp fun _ hall => ?_
    exact List.forall_mem_cons.2 ⟨hgood, hall⟩

theorem Meets.mapM {bad : ε → Prop} {step : α → Except ε β} {good : α → β → Prop} {members : List α}
    (h : ∀ member ∈ members, Meets (good member) bad (step member)) :
    Meets (List.Forall₂ good members) bad (members.mapM step) := by
  induction members with
  | nil => exact .nil
  | cons member rest ih =>
    obtain ⟨hmember, hrest⟩ := List.forall_mem_cons.1 h
    rw [List.mapM_cons]
    refine hmember.bind fun value hvalue => (ih hrest).bind fun values hvalues => ?_
    exact .cons hvalue hvalues

theorem Meets.mapM_zipIdx {bad : ε → Prop} {step : α × Nat → Except ε β} {good : Nat → α → β → Prop}
    {members : List α}
    (h : ∀ i member, members[i]? = some member → Meets (good i member) bad (step (member, i))) :
    Meets (fun values => values.length = members.length ∧
        ∀ i member value, members[i]? = some member → values[i]? = some value → good i member value)
      bad (members.zipIdx.mapM step) := by
  have hall : Meets (List.Forall₂ (fun entry value => good entry.2 entry.1 value) members.zipIdx) bad
      (members.zipIdx.mapM step) :=
    Meets.mapM fun entry hentry => h entry.2 entry.1 (List.mk_mem_zipIdx_iff_getElem?.1 hentry)
  refine hall.imp fun values hvalues => ?_
  obtain ⟨hlength, hget⟩ := List.forall₂_iff_get.1 hvalues
  rw [List.length_zipIdx] at hlength
  refine ⟨hlength.symm, ?_⟩
  intro i member value hmember hvalue
  obtain ⟨hi, rfl⟩ := List.getElem?_eq_some_iff.1 hmember
  obtain ⟨hi', rfl⟩ := List.getElem?_eq_some_iff.1 hvalue
  simpa using hget i (by rwa [List.length_zipIdx]) hi'

/-- A check that ends in a value has passed its first part. -/
theorem exists_of_bind_eq_ok {check : Except ε α} {next : α → Except ε β} {result : β}
    (h : check >>= next = .ok result) : ∃ value, check = .ok value ∧ next value = .ok result := by
  cases check with
  | error error => cases h
  | ok value => exact ⟨value, rfl, h⟩

end Pushdown
