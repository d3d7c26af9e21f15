import Pushdown.Code

/-!
The two maps of a grammar table: display names of token kinds, in ascending order of their codes, and start
names, in the order in which they were first given.
-/

namespace Pushdown

/-- Display names of token kinds. -/
structure TokenNames where
  entries : List (TokenKind × String)
  /-- Kinds ascend, so each has one name. -/
  ascending : entries.Pairwise fun a b => a.1.code < b.1.code
deriving DecidableEq, Repr

namespace TokenNames

def empty : TokenNames := ⟨[], .nil⟩

/-- Puts an entry at its place in an ascending list, over an entry of the same kind. -/
def place (kind : TokenKind) (name : String) : List (TokenKind × String) → List (TokenKind × String)
  | [] => [(kind, name)]
  | entry :: rest =>
    if kind.code < entry.1.code then (kind, name) :: entry :: rest
    else if kind = entry.1 then (kind, name) :: rest
    else entry :: place kind name rest

theorem mem_place {kind : TokenKind} {name : String} {entries : List (TokenKind × String)}
    {entry : TokenKind × String} (h : entry ∈ place kind name entries) :
    entry = (kind, name) ∨ entry ∈ entries := by
  induction entries with
  | nil => simpa [place] using h
  | cons head rest ih =>
    rw [place] at h
    split at h
    · simpa using h
    · split at h
      · rcases List.mem_cons.1 h with h | h
        · exact .inl h
        · exact .inr (List.mem_cons_of_mem _ h)
      · rcases List.mem_cons.1 h with h | h
        · exact .inr (h ▸ List.mem_cons_self)
        · exact (ih h).imp_right (List.mem_cons_of_mem _)

theorem place_ascending {kind : TokenKind} {name : String} {entries : List (TokenKind × String)}
    (h : entries.Pairwise fun a b => a.1.code < b.1.code) :
    (place kind name entries).Pairwise fun a b => a.1.code < b.1.code := by
  induction entries with
  | nil => simp [place]
  | cons head rest ih =>
    obtain ⟨hhead, hrest⟩ := List.pairwise_cons.1 h
    rw [place]
    split
    · rename_i hlt
      refine List.pairwise_cons.2 ⟨?_, h⟩
      intro entry hentry
      rcases List.mem_cons.1 hentry with rfl | hentry
      · exact hlt
      · exact UInt16.lt_trans hlt (hhead entry hentry)
    · split
      · rename_i heq
        subst heq
        exact List.pairwise_cons.2 ⟨hhead, hrest⟩
      · rename_i hlt hne
        refine List.pairwise_cons.2 ⟨?_, ih hrest⟩
        intro entry hentry
        rcases mem_place hentry with rfl | hentry
        · exact UInt16.lt_of_le_of_ne (UInt16.not_lt.1 hlt) fun heq =>
            hne (congrArg TokenKind.mk heq.symm)
        · exact hhead entry hentry

/-- Gives a kind its name, over the one it had. -/
def insert (names : TokenNames) (kind : TokenKind) (name : String) : TokenNames :=
  ⟨place kind name names.entries, place_ascending names.ascending⟩

/-- The name of a kind. -/
def get? (names : TokenNames) (kind : TokenKind) : Option String := names.entries.lookup kind

end TokenNames

/-- Start names with what they stand for, in the order in which they were first given. -/
structure StartMap (α : Type) where
  entries : List (String × α)
  /-- Each name stands once. -/
  distinct : (entries.map Prod.fst).Nodup
deriving DecidableEq, Repr

namespace StartMap

variable {α : Type}

def empty : StartMap α := ⟨[], .nil⟩

/-- Puts an entry over the one of the same name, or last. -/
def place (name : String) (value : α) : List (String × α) → List (String × α)
  | [] => [(name, value)]
  | entry :: rest => if entry.1 = name then (name, value) :: rest else entry :: place name value rest

theorem names_place (name : String) (value : α) (entries : List (String × α)) :
    (place name value entries).map Prod.fst =
      if name ∈ entries.map Prod.fst then entries.map Prod.fst else entries.map Prod.fst ++ [name] := by
  induction entries with
  | nil => simp [place]
  | cons head rest ih =>
    rw [place]
    by_cases h : head.1 = name
    · simp [h]
    · have h' : ¬ name = head.1 := fun e => h e.symm
      rw [if_neg h, List.map_cons, ih]
      simp only [List.map_cons, List.mem_cons, h', false_or]
      split <;> simp

/-- Gives a name its value, over the one it had. A new name goes last. -/
def insert (starts : StartMap α) (name : String) (value : α) : StartMap α where
  entries := place name value starts.entries
  distinct := by
    rw [names_place]
    split
    · exact starts.distinct
    · rename_i h
      refine List.nodup_append.2 ⟨starts.distinct, by simp, ?_⟩
      intro a ha b hb hab
      rw [List.mem_singleton.1 hb] at hab
      exact h (hab ▸ ha)

/-- What a name stands for. -/
def get? (starts : StartMap α) (name : String) : Option α := starts.entries.lookup name

end StartMap

end Pushdown
