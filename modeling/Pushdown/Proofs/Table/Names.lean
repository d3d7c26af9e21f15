import Pushdown.Table.Names

/-!
Entries that are inserted into a map are found in it, and those that are inserted in the order of a map make this map.
-/

namespace Pushdown

attribute [ext] TokenNames StartMap

namespace TokenNames

theorem lookup_place (kind other : TokenKind) (name : String) (entries : List (TokenKind × String)) :
    (place kind name entries).lookup other = if other = kind then some name else entries.lookup other := by
  have hcons : ∀ (entry : TokenKind × String) rest,
      List.lookup other (entry :: rest) = if other = entry.1 then some entry.2 else rest.lookup other := by
    rintro ⟨named, value⟩ rest
    by_cases h : other = named
    · rw [List.lookup_cons, if_pos h, beq_iff_eq.2 h]
    · rw [List.lookup_cons, if_neg h, beq_false_of_ne h]
  induction entries with
  | nil => exact hcons (kind, name) []
  | cons head rest ih =>
    rw [place]
    split
    · exact hcons (kind, name) (head :: rest)
    · split
      · rename_i heq
        rw [hcons, hcons, heq]
        split <;> rfl
      · -- The entry stays before the new one, and its kind is another one.
        rename_i hne
        rw [hcons, hcons, ih]
        by_cases h : other = head.1
        · rw [if_pos h, if_pos h, if_neg fun hkind => hne (hkind.symm.trans h)]
        · rw [if_neg h, if_neg h]

theorem get?_insert (names : TokenNames) (kind other : TokenKind) (name : String) :
    (names.insert kind name).get? other = if other = kind then some name else names.get? other :=
  lookup_place kind other name names.entries

theorem place_of_forall_lt {kind : TokenKind} {entries : List (TokenKind × String)}
    (h : ∀ entry ∈ entries, entry.1.code < kind.code) (name : String) :
    place kind name entries = entries ++ [(kind, name)] := by
  induction entries with
  | nil => rfl
  | cons head rest ih =>
    obtain ⟨hhead, hrest⟩ := List.forall_mem_cons.1 h
    have hlt : ¬ kind.code < head.1.code := UInt16.lt_asymm hhead
    have hne : kind ≠ head.1 := by
      rintro rfl
      exact UInt16.lt_irrefl _ hhead
    rw [place, if_neg hlt, if_neg hne, ih hrest, List.cons_append]

theorem entries_foldl_insert (entries : List (TokenKind × String)) (names : TokenNames)
    (h : (names.entries ++ entries).Pairwise fun a b => a.1.code < b.1.code) :
    (entries.foldl (fun names entry => names.insert entry.1 entry.2) names).entries = names.entries ++ entries := by
  induction entries generalizing names with
  | nil => exact (List.append_nil _).symm
  | cons entry rest ih =>
    -- Every kind that has a name is before the next one.
    have hbefore : ∀ named ∈ names.entries, named.1.code < entry.1.code := fun named hnamed =>
      (List.pairwise_append.1 h).2.2 named hnamed entry List.mem_cons_self
    have hinsert : (names.insert entry.1 entry.2).entries = names.entries ++ [entry] :=
      place_of_forall_lt hbefore entry.2
    rw [List.foldl_cons, ih]
    · rw [hinsert, List.append_assoc, List.singleton_append]
    · rwa [hinsert, List.append_assoc, List.singleton_append]

theorem foldl_insert_entries (names : TokenNames) :
    names.entries.foldl (fun names entry => names.insert entry.1 entry.2) empty = names :=
  TokenNames.ext (entries_foldl_insert names.entries empty names.ascending)

end TokenNames

namespace StartMap

variable {α : Type}

theorem place_of_not_mem {name : String} {entries : List (String × α)} (h : name ∉ entries.map Prod.fst) (value : α) :
    place name value entries = entries ++ [(name, value)] := by
  induction entries with
  | nil => rfl
  | cons head rest ih =>
    rw [List.map_cons, List.mem_cons, not_or] at h
    rw [place, if_neg (Ne.symm h.1), ih h.2, List.cons_append]

theorem entries_insert {starts : StartMap α} {name : String} (h : name ∉ starts.entries.map Prod.fst) (value : α) :
    (starts.insert name value).entries = starts.entries ++ [(name, value)] := place_of_not_mem h value

theorem entries_foldl_insert (entries : List (String × α)) (starts : StartMap α)
    (h : ((starts.entries ++ entries).map Prod.fst).Nodup) :
    (entries.foldl (fun starts entry => starts.insert entry.1 entry.2) starts).entries = starts.entries ++ entries := by
  induction entries generalizing starts with
  | nil => exact (List.append_nil _).symm
  | cons entry rest ih =>
    have hnew : entry.1 ∉ starts.entries.map Prod.fst := by
      rw [List.map_append, List.map_cons] at h
      exact fun hmem => (List.nodup_append.1 h).2.2 _ hmem _ List.mem_cons_self rfl
    have hinsert := entries_insert hnew entry.2
    rw [List.foldl_cons, ih]
    · rw [hinsert, List.append_assoc, List.singleton_append]
    · rwa [hinsert, List.append_assoc, List.singleton_append]

theorem foldl_insert_entries (starts : StartMap α) :
    starts.entries.foldl (fun starts entry => starts.insert entry.1 entry.2) empty = starts :=
  StartMap.ext (entries_foldl_insert starts.entries empty starts.distinct)

end StartMap

end Pushdown
