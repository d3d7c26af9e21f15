import Mathlib.Data.List.Induction
import Mathlib.Data.List.Nodup
import Pushdown.Proofs.Draft.Step

/-!
Drafts and the steps that have made them. All that a draft holds has been mentioned by some step, in the order of the
steps, and all that has been mentioned is there.
-/

namespace Pushdown.Draft

/-- The draft that the steps make. -/
def run (steps : List Step) : Except UndeclaredSymbol Draft := steps.foldlM apply empty

section FirstUses

variable {α β : Type} [DecidableEq α]

theorem eraseDups_concat (members : List α) (member : α) :
    (members ++ [member]).eraseDups = addNew members.eraseDups (some member) := by
  rw [List.eraseDups_append, addNew]
  by_cases h : member ∈ members
  · rw [if_pos (List.mem_eraseDups.2 h)]
    simp [List.removeAll, h]
  · rw [if_neg (mt List.mem_eraseDups.1 h)]
    simp [List.removeAll, List.eraseDups_cons, h]

theorem nodup_eraseDups (members : List α) : members.eraseDups.Nodup := by
  induction members using List.reverseRecOn with
  | nil => exact .nil
  | append_singleton members member ih =>
    rw [eraseDups_concat, addNew]
    split
    · exact ih
    · rename_i h
      rw [List.nodup_append_comm]
      exact List.nodup_cons.2 ⟨h, ih⟩

theorem eraseDups_filterMap_concat (view : β → Option α) (steps : List β) (step : β) :
    ((steps ++ [step]).filterMap view).eraseDups = addNew (steps.filterMap view).eraseDups (view step) := by
  rw [List.filterMap_append]
  cases h : view step with
  | none =>
    rw [List.filterMap_cons_none h, List.filterMap_nil, List.append_nil]
    rfl
  | some member => rw [List.filterMap_cons_some h, List.filterMap_nil, eraseDups_concat]

end FirstUses

section Starts

variable {α : Type} (starts : StartMap α) (name : String) (value : α)

theorem names_insert : (starts.insert name value).entries.map Prod.fst =
    addNew (starts.entries.map Prod.fst) (some name) := StartMap.names_place name value starts.entries

theorem mem_insert {starts : StartMap α} {name : String} {value : α} {entry : String × α}
    (h : entry ∈ (starts.insert name value).entries) :
    entry = (name, value) ∨ entry ∈ starts.entries ∧ entry.1 ≠ name := by
  -- That names differ is needed of what is behind the entry, so it goes into the induction.
  have hdistinct := starts.distinct
  change entry ∈ StartMap.place name value starts.entries at h
  generalize starts.entries = entries at h hdistinct ⊢
  induction entries with
  | nil => exact .inl (List.mem_singleton.1 h)
  | cons head rest ih =>
    rw [List.map_cons, List.nodup_cons] at hdistinct
    rw [StartMap.place] at h
    split at h
    · rename_i heq
      rcases List.mem_cons.1 h with hnew | hrest
      · exact .inl hnew
      · -- Names differ, so the entries behind the new one have other names.
        refine .inr ⟨List.mem_cons_of_mem _ hrest, ?_⟩
        rintro rfl
        exact hdistinct.1 (heq ▸ List.mem_map_of_mem hrest)
    · rename_i hne
      rcases List.mem_cons.1 h with rfl | hrest
      · exact .inr ⟨List.mem_cons_self, hne⟩
      · refine (ih hrest hdistinct.2).imp_right ?_
        exact And.imp_left (List.mem_cons_of_mem _)

end Starts

/-- What a draft holds after the steps, part by part. -/
structure Kept (steps : List Step) (draft : Draft) : Prop where
  tokenName_eq : ∀ kind, draft.tokenNames.get? kind = (steps.filterMap (Step.named? kind)).getLast?
  names_eq : draft.names = (steps.filterMap Step.declared?).eraseDups
  labels_eq : draft.labels.toList = (steps.filterMap Step.entry?).eraseDups
  size_eq : ∀ i, (draft.states i).size = span (steps.flatMap (Step.states i))
  arcs_eq : ∀ i j, (stateIn (draft.states i) j).arcs =
    (steps.filterMap (Step.arc? i j)).map fun added => ⟨labelIn draft.labels.toList added.1, added.2⟩
  accepting_eq : ∀ i j, (stateIn (draft.states i) j).accepting = steps.any (Step.accepts i j)
  start_names : draft.starts.entries.map Prod.fst = ((steps.filterMap Step.started?).map Prod.fst).eraseDups
  /-- A start name stands for the nonterminal that it was given last. -/
  start_last : ∀ entry ∈ draft.starts.entries, ∃ before id after,
    steps.filterMap Step.started? = before ++ (entry.1, id) :: after ∧ (∀ later ∈ after, later.1 ≠ entry.1) ∧
      draft.names[id.index]? = some entry.2

variable {steps : List Step} {step : Step} {draft draft' : Draft}

theorem kept_empty : Kept [] empty where
  tokenName_eq _ := rfl
  names_eq := rfl
  labels_eq := rfl
  size_eq _ := rfl
  arcs_eq _ _ := rfl
  accepting_eq _ _ := rfl
  start_names := rfl
  start_last _ h := absurd h List.not_mem_nil

theorem Step.eq_arc_of_arc? {i j : Nat} {added : LabelEntry × UInt32} (h : step.arc? i j = some added) :
    ∃ id source, step = .arc id source added.1 added.2 ∧ id.index = i := by
  cases step with
  | arc id source entry target =>
    rw [arc?] at h
    split at h
    · rename_i heq
      cases h
      exact ⟨id, source, rfl, heq.1⟩
    · cases h
  | _ => cases h

theorem Kept.entry_mem (h : Kept steps draft) {i j : Nat} {added : LabelEntry × UInt32}
    (hadded : added ∈ steps.filterMap (Step.arc? i j)) : added.1 ∈ draft.labels.toList := by
  obtain ⟨step, hstep, harc⟩ := List.mem_filterMap.1 hadded
  obtain ⟨id, source, rfl, -⟩ := Step.eq_arc_of_arc? harc
  rw [h.labels_eq, List.mem_eraseDups]
  exact List.mem_filterMap.2 ⟨_, hstep, rfl⟩

theorem Step.target_mem_states {i j : Nat} {added : LabelEntry × UInt32} (h : added ∈ steps.filterMap (Step.arc? i j)) :
    added.2 ∈ steps.flatMap (Step.states i) := by
  obtain ⟨step, hstep, harc⟩ := List.mem_filterMap.1 h
  obtain ⟨id, source, rfl, hindex⟩ := Step.eq_arc_of_arc? harc
  refine List.mem_flatMap.2 ⟨_, hstep, ?_⟩
  rw [Step.states, if_pos hindex]
  simp

/-- An arc of the draft keeps its label, since the entry of the label keeps its position. -/
theorem Kept.arcs_moved (h : Kept steps draft) (hmoves : draft.Moves step draft') (i j : Nat) :
    (stateIn (draft.states i) j).arcs =
      (steps.filterMap (Step.arc? i j)).map fun added => ⟨labelIn draft'.labels.toList added.1, added.2⟩ := by
  rw [h.arcs_eq, hmoves.labels_eq]
  apply List.map_congr_left
  intro added hadded
  rw [labelIn_addNew (h.entry_mem hadded)]

theorem Moves.names_kept (hmoves : draft.Moves step draft') {i : Nat} {name : String}
    (h : draft.names[i]? = some name) : draft'.names[i]? = some name := by
  obtain ⟨rest, hrest⟩ := prefix_addNew draft.names step.declared?
  rw [hmoves.names_eq, ← hrest, List.getElem?_append_left (List.getElem?_eq_some_iff.1 h).1, h]

theorem Kept.start_names_moved (h : Kept steps draft) (hmoves : draft.Moves step draft') :
    draft'.starts.entries.map Prod.fst = (((steps ++ [step]).filterMap Step.started?).map Prod.fst).eraseDups := by
  rw [List.map_filterMap, eraseDups_filterMap_concat, ← List.map_filterMap, ← h.start_names]
  cases hstarted : step.started? with
  | none =>
    rw [hmoves.starts_kept hstarted]
    rfl
  | some registered =>
    obtain ⟨name, id⟩ := registered
    obtain ⟨symbol, -, hstarts⟩ := hmoves.starts_eq name id hstarted
    rw [hstarts, names_insert]
    rfl

theorem Kept.start_last_moved (h : Kept steps draft) (hmoves : draft.Moves step draft') :
    ∀ entry ∈ draft'.starts.entries, ∃ before id after,
      (steps ++ [step]).filterMap Step.started? = before ++ (entry.1, id) :: after ∧
        (∀ later ∈ after, later.1 ≠ entry.1) ∧ draft'.names[id.index]? = some entry.2 := by
  intro entry hentry
  rw [List.filterMap_append]
  -- Either the step registers nothing, or it is the last to register the entry, or it registers another name.
  cases hstarted : step.started? with
  | none =>
    rw [hmoves.starts_kept hstarted] at hentry
    obtain ⟨before, id, after, hbefore, hlast, hname⟩ := h.start_last entry hentry
    refine ⟨before, id, after, ?_, hlast, hmoves.names_kept hname⟩
    rw [List.filterMap_cons_none hstarted, List.filterMap_nil, List.append_nil, hbefore]
  | some registered =>
    obtain ⟨name, id⟩ := registered
    obtain ⟨symbol, hsymbol, hstarts⟩ := hmoves.starts_eq name id hstarted
    rw [List.filterMap_cons_some hstarted, List.filterMap_nil]
    rw [hstarts] at hentry
    rcases mem_insert hentry with rfl | ⟨hold, hne⟩
    · exact ⟨_, id, [], rfl, by simp, hmoves.names_kept hsymbol⟩
    · -- The name that is registered now is another one.
      obtain ⟨before, id', after, hbefore, hlast, hname⟩ := h.start_last entry hold
      refine ⟨before, id', after ++ [(name, id)], ?_, ?_, hmoves.names_kept hname⟩
      · rw [hbefore, List.append_assoc, List.cons_append]
      · intro later hlater
        rcases List.mem_append.1 hlater with hlater | hlater
        · exact hlast later hlater
        · rw [List.mem_singleton.1 hlater]
          exact hne.symm

theorem Kept.moves (h : Kept steps draft) (hmoves : draft.Moves step draft') : Kept (steps ++ [step]) draft' where
  tokenName_eq kind := by
    rw [hmoves.tokenName_eq, h.tokenName_eq, List.filterMap_append, List.getLast?_append]
    cases hnamed : step.named? kind <;> simp [hnamed]
  names_eq := by rw [hmoves.names_eq, h.names_eq, eraseDups_filterMap_concat]
  labels_eq := by rw [hmoves.labels_eq, h.labels_eq, eraseDups_filterMap_concat]
  size_eq i := by rw [hmoves.size_eq, h.size_eq, List.flatMap_append, span_append, List.flatMap_singleton]
  arcs_eq i j := by
    rw [hmoves.arcs_eq, h.arcs_moved hmoves, ← List.map_append, List.filterMap_append]
    rfl
  accepting_eq i j := by
    rw [hmoves.accepting_eq, h.accepting_eq, List.any_append, List.any_cons, List.any_nil, Bool.or_false]
  start_names := h.start_names_moved hmoves
  start_last := h.start_last_moved hmoves

theorem kept_run (steps : List Step) : Meets (Kept steps) (fun _ => True) (run steps) := by
  refine Meets.foldlM Kept kept_empty ?_
  intro passed step rest draft _ hkept
  cases hstep : draft.apply step with
  | error undeclared => trivial
  | ok draft' => exact hkept.moves (moves_of_apply hstep)

theorem kept_of_run (h : run steps = .ok draft) : Kept steps draft := by
  have hmeets := kept_run steps
  rwa [h] at hmeets

theorem exists_run_of_prefix {before after : List Step} (h : run (before ++ after) = .ok draft) :
    ∃ earlier, run before = .ok earlier ∧ after.foldlM apply earlier = .ok draft := by
  rw [run, List.foldlM_append] at h
  exact exists_of_bind_eq_ok h

/-- Steps make a draft if each is about a nonterminal that has been declared before, and otherwise they do not. -/
theorem exists_run_iff (steps : List Step) :
    (∃ draft, run steps = .ok draft) ↔ ∀ before step after, steps = before ++ step :: after →
      ∀ id, step.symbol? = some id → id.index < (before.filterMap Step.declared?).eraseDups.length := by
  constructor
  · rintro ⟨draft, hrun⟩ before step after rfl
    obtain ⟨earlier, hearlier, hafter⟩ := exists_run_of_prefix hrun
    rw [List.foldlM_cons] at hafter
    obtain ⟨next, hnext, -⟩ := exists_of_bind_eq_ok hafter
    rw [← (kept_of_run hearlier).names_eq]
    exact (exists_apply_iff earlier step).1 ⟨next, hnext⟩
  · intro hdeclared
    -- From the end, since what a step needs is what the steps before it have declared.
    induction steps using List.reverseRecOn with
    | nil => exact ⟨empty, rfl⟩
    | append_singleton steps step ih =>
      obtain ⟨draft, hrun⟩ := ih fun before other after h => hdeclared before other (after ++ [step]) (by simp [h])
      have hlast := hdeclared steps step [] rfl
      rw [← (kept_of_run hrun).names_eq] at hlast
      obtain ⟨draft', hstep⟩ := (exists_apply_iff draft step).2 hlast
      refine ⟨draft', ?_⟩
      rw [run, List.foldlM_append, ← run, hrun]
      exact bind_pure (draft.apply step) ▸ hstep

end Pushdown.Draft
