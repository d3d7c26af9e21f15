import Pushdown.Proofs.Grammar.Follow
import Pushdown.Proofs.Grammar.Terminals
import Pushdown.Proofs.Parser.Progress

/-!
Tokens that have been taken can be completed. From every stack, the frames can be grown to their ends one after
another, as long as every state leads to an end and what can stand behind a nonterminal tells whether it ends.
-/

namespace Pushdown

namespace Grammar

variable {grammar : Grammar} {automaton : Automaton} {state stop : UInt32}

/-- A token, or a nonterminal that derives something, leads from one state to the other. -/
def Advances (grammar : Grammar) (automaton : Automaton) (state next : UInt32) : Prop :=
  ∃ arc ∈ (automaton.state state).arcs, arc.target = next ∧
    (grammar.Terminal arc.label ∨
      ∃ symbol tree, grammar.labelOf? (.symbol symbol) = some arc.label ∧ grammar.Derivation symbol tree)

/-- From every state of every nonterminal, a state in which it may end can be reached. -/
def Completable (grammar : Grammar) : Prop :=
  ∀ automaton ∈ grammar.automata, ∀ state : UInt32, state.toNat < automaton.states.size →
    ∃ stop, Relation.ReflTransGen (grammar.Advances automaton) state stop ∧
      (automaton.state stop).accepting = true

theorem exists_reads (hs : grammar.Sound) (h : Relation.ReflTransGen (grammar.Advances automaton) state stop) :
    ∃ children, grammar.Reads automaton state children stop ∧
      ∀ child ∈ children, ∀ inner, child.symbol? = some inner → grammar.Derivation inner child := by
  induction h using Relation.ReflTransGen.head_induction_on with
  | refl => exact ⟨[], .nil stop, fun _ hchild => absurd hchild List.not_mem_nil⟩
  | head hadvances _ ih =>
    obtain ⟨children, hreads, hderivation⟩ := ih
    obtain ⟨arc, harc, rfl, hterminal | ⟨symbol, tree, hlabel, htree⟩⟩ := hadvances
    · -- A terminal is the label of some token, which is the next leaf.
      obtain ⟨token, hresolve⟩ := hs.exists_resolve hterminal
      refine ⟨.leaf token :: children, .cons harc hresolve hreads, List.forall_mem_cons.2 ⟨?_, hderivation⟩⟩
      simp [Tree.symbol?]
    · have hsymbol : tree.symbol? = some symbol := by
        cases htree with
        | node _ _ _ _ _ => rfl
      have htreeLabel : grammar.labelOfTree? tree = some arc.label := by
        cases htree with
        | node _ _ _ _ _ => exact hlabel
      refine ⟨tree :: children, .cons harc htreeLabel hreads, List.forall_mem_cons.2 ⟨?_, hderivation⟩⟩
      intro inner hinner
      obtain rfl : symbol = inner := Option.some.inj (hsymbol.symm.trans hinner)
      exact htree

end Grammar

namespace Parser

variable {grammar : Grammar} {start : SymbolId} {last : Label} {final : Token}

/-- The tokens are taken, after which all frames may end before the final token. -/
def Finishes (grammar : Grammar) (final : Token) (tokens : List Token) (stack : List Frame) : Prop :=
  ∃ next root, Steps grammar stack tokens next ∧ Closes (Ends grammar [final]) next [root] ∧
    Ends grammar [final] root.current

theorem Finishes.of_steps {a b : List Token} {stack next : List Frame} (h : Steps grammar stack a next)
    (h' : Finishes grammar final b next) : Finishes grammar final (a ++ b) stack := by
  obtain ⟨stack', root, hsteps, hcloses, hroot⟩ := h'
  exact ⟨stack', root, h.append hsteps, hcloses, hroot⟩

/-- The frame can be grown along children that lead to a state in which it may end. -/
theorem grow_frame (hs : grammar.Sound) (hdecided : grammar.Decided start last) {frame : Frame}
    (hautomaton : grammar.automaton? frame.automaton.symbol = some frame.automaton) {children : List Tree}
    {stop : UInt32} (hreads : grammar.Reads frame.automaton frame.state children stop)
    (hderivation : ∀ child ∈ children, ∀ inner, child.symbol? = some inner → grammar.Derivation inner child)
    (haccepting : (frame.automaton.state stop).accepting = true) {following : List Token}
    (hfollowed : grammar.Followed start last frame.automaton.symbol following) {stack below : List Frame}
    (hcloses : Closes (Ends grammar (children.flatMap Tree.leaves ++ following)) stack (frame :: below)) :
    ∃ next top, Steps grammar stack (children.flatMap Tree.leaves) next ∧
      Closes (Ends grammar following) next (top :: below) ∧ Ends grammar following top.current ∧
      top.automaton = frame.automaton ∧ top.returnState = frame.returnState := by
  have hmem := Grammar.mem_of_automaton? hautomaton
  have hends : Ends grammar following (frame.automaton.state stop) := by
    refine ⟨haccepting, fun token htoken label hresolve => ?_⟩
    exact hdecided _ _ stop label hautomaton haccepting (hfollowed token htoken label hresolve)
  by_cases hempty : children = []
  · -- The frame may end where it is.
    subst hempty
    obtain rfl := hreads.eq_of_nil
    exact ⟨stack, frame, .nil stack, hcloses, hends, rfl, rfl⟩
  have hgreedy : ∀ before child rest, children = before ++ child :: rest →
      grammar.Greedy child (rest.flatMap Tree.leaves ++ following) := by
    rintro before child rest rfl
    have hchild := hderivation child (List.mem_append_right before List.mem_cons_self)
    exact hreads.greedy_child hs hautomaton haccepting hderivation
      (fun inner hinner _ => (hchild inner hinner).greedy hs hdecided) hfollowed
  have hgrows : ∀ child ∈ children, ∀ inner, child.symbol? = some inner → Grows grammar inner child :=
    fun child hchild inner hinner => .of_derivation hs (hderivation child hchild inner hinner)
  obtain ⟨next, hsteps, hnext⟩ :=
    grow_children hs frame hmem hempty hreads hderivation hgrows hgreedy (.of_closes hcloses)
  exact ⟨next, _, hsteps, hnext, hends, rfl, rfl⟩

/--
There are tokens that finish the stack once its top frame may end before them, whatever that frame has grown to. They
can stand behind its nonterminal.
-/
theorem Linked.exists_following (hs : grammar.Sound) (hcompletable : grammar.Completable)
    (hdecided : grammar.Decided start last) (hlast : grammar.resolve? final.kind final.text = some last)
    {base : Automaton} (hbase : grammar.automaton? start = some base) {stack : List Frame}
    (h : Linked grammar base stack) :
    ∀ frame below, stack = frame :: below →
      grammar.automaton? frame.automaton.symbol = some frame.automaton ∧
      ∃ tokens, grammar.Followed start last frame.automaton.symbol (tokens ++ [final]) ∧
        ∀ grown top, top.automaton = frame.automaton → top.returnState = frame.returnState →
          Closes (Ends grammar (tokens ++ [final])) grown (top :: below) →
          Ends grammar (tokens ++ [final]) top.current → Finishes grammar final tokens grown := by
  induction h with
  | @bottom frame hautomaton _ =>
    rintro _ _ ⟨⟩
    have hsymbol : frame.automaton.symbol = start := hautomaton ▸ hs.symbol_eq start base hbase
    refine ⟨by rw [hsymbol, hbase, hautomaton], [], ?_, ?_⟩
    · intro token htoken label hresolve
      obtain rfl : final = token := Option.some.inj htoken
      obtain rfl : last = label := Option.some.inj (hlast.symm.trans hresolve)
      rw [hsymbol]
      exact .last
    · intro grown top _ _ hcloses hends
      exact ⟨grown, top, .nil grown, hcloses, hends⟩
  | @link frame parent below arc _ harc hopened hreturn hlinked ih =>
    rintro _ _ ⟨⟩
    obtain ⟨hframe, hlabel⟩ := hs.labelOf?_of_opened? hopened
    obtain ⟨hparent, tokens, hfollowed, hfinishes⟩ := ih parent below rfl
    have hmem := Grammar.mem_of_automaton? hparent
    -- The frame below goes on at the end of the arc, from which it can be grown to its own end.
    obtain ⟨stop, hadvances, haccepting⟩ :=
      hcompletable parent.automaton hmem arc.target (hs.target_lt parent.automaton hmem parent.state arc harc)
    obtain ⟨children, hreads, hderivation⟩ := Grammar.exists_reads hs hadvances
    have hbehind := Grammar.Followed.child hs hparent harc hlabel hreads haccepting hderivation hfollowed
    rw [← List.append_assoc] at hbehind
    refine ⟨hframe, children.flatMap Tree.leaves ++ tokens, hbehind, ?_⟩
    intro grown top _ htopReturn hcloses hends
    have hclosed : Closes (Ends grammar (children.flatMap Tree.leaves ++ (tokens ++ [final]))) grown
        (parent.close top :: below) := by
      rw [← List.append_assoc]
      exact hcloses.trans (.close hends (.refl _))
    have hsymbol : grammar.automaton? (parent.close top).automaton.symbol = some (parent.close top).automaton :=
      hparent
    have hgoesOn : grammar.Reads (parent.close top).automaton (parent.close top).state children stop := by
      show grammar.Reads parent.automaton top.returnState children stop
      rw [htopReturn, hreturn]
      exact hreads
    obtain ⟨next, grownParent, hsteps, hnext, hparentEnds, hsame, hsameReturn⟩ :=
      grow_frame hs hdecided hsymbol hgoesOn hderivation haccepting hfollowed hclosed
    exact .of_steps hsteps (hfinishes next grownParent hsame hsameReturn hnext hparentEnds)

theorem Linked.exists_finishes (hs : grammar.Sound) (hcompletable : grammar.Completable)
    (hdecided : grammar.Decided start last) (hlast : grammar.resolve? final.kind final.text = some last)
    {base : Automaton} (hbase : grammar.automaton? start = some base) {stack : List Frame}
    (h : Linked grammar base stack) : ∃ tokens, Finishes grammar final tokens stack := by
  obtain ⟨frame, below, rfl⟩ := List.exists_cons_of_ne_nil h.ne_nil
  obtain ⟨hframe, tokens, hfollowed, hfinishes⟩ :=
    h.exists_following hs hcompletable hdecided hlast hbase frame below rfl
  obtain ⟨stop, hadvances, haccepting⟩ :=
    hcompletable frame.automaton (Grammar.mem_of_automaton? hframe) frame.state h.state_lt
  obtain ⟨children, hreads, hderivation⟩ := Grammar.exists_reads hs hadvances
  obtain ⟨next, top, hsteps, hnext, hends, hautomaton, hreturn⟩ :=
    grow_frame hs hdecided hframe hreads hderivation haccepting hfollowed (.refl (frame :: below))
  exact ⟨_, .of_steps hsteps (hfinishes next top hautomaton hreturn hnext hends)⟩

/-- A run over such tokens finds a tree, unless an end marker among them has completed one before. -/
theorem Finishes.run_eq_ok {parser : Parser} (hs : parser.grammar.Sound) (hknown : Known parser.grammar parser.stack)
    (hfinal : final.kind.isEndMarker = true) {tokens : List Token}
    (h : Finishes parser.grammar final tokens parser.stack) (stop : Nat) :
    ∃ tree unread, parser.run stop (tokens ++ [final]) = ⟨.ok tree, unread⟩ := by
  induction tokens generalizing parser stop with
  | nil =>
    obtain ⟨next, root, hsteps, hcloses, hroot⟩ := h
    cases hsteps
    exact ⟨root.node, [], run_of_complete (pushToken_of_untaken_end parser hfinal hroot hcloses) stop []⟩
  | cons token tokens ih =>
    obtain ⟨next, root, hsteps, hcloses, hroot⟩ := h
    cases hsteps with
    | @cons _ closed middle _ _ _ label hresolve hclosed htakes hrest =>
      have hadd := addToken_of_takes token.kind hs hknown hclosed htakes
      rw [← pushToken_eq_addToken hresolve] at hadd
      cases hend : token.kind.isEndMarker && allAccepting middle with
      | true =>
        obtain ⟨-, haccepting⟩ := Bool.and_eq_true_iff.1 hend
        obtain ⟨early, -, hearly⟩ := closes_of_allAccepting htakes.ne_nil haccepting
        have hfinish : ({ parser with stack := middle } : Parser).finish = parser.completed early :=
          finish_eq_completed { parser with stack := middle } hearly
        rw [hend, if_pos rfl, hfinish] at hadd
        exact ⟨early.node, tokens ++ [final], run_of_complete hadd stop (tokens ++ [final])⟩
      | false =>
        rw [hend, if_neg Bool.false_ne_true] at hadd
        have hmiddle : Finishes parser.grammar final tokens middle := ⟨next, root, hrest, hcloses, hroot⟩
        obtain ⟨tree, unread, hrun⟩ :=
          @ih { parser with stack := middle } hs (htakes.known (hclosed.known hknown)) hmiddle token.span.stop
        exact ⟨tree, unread, by rw [List.cons_append, run, hadd]; exact hrun⟩

end Parser

/--
Tokens that are taken one after another are the beginning of an input that is accepted. So a token that is rejected is
the first at which the input is no longer such a beginning.
-/
theorem Grammar.parseTokens_viable_prefix {grammar : Grammar} (hg : grammar.Compiled) {start : SymbolId}
    {parser : Parser} (hstart : (Parser.new grammar).setup start = .ok parser) {last : Label}
    (hlast : grammar.resolve? .endMarker "" = some last) (hcompletable : grammar.Completable)
    (hdecided : grammar.Decided start last) {tokens : List Token} (hgoes : parser.GoesOn tokens) :
    (∃ more tree unread, grammar.parseTokens start (tokens ++ more) = .ok ⟨.ok tree, unread⟩) ∧
    ∀ token error next, (parser.feed tokens).pushToken token = (.error error, next) →
      ∀ more tree unread, grammar.parseTokens start (tokens ++ token :: more) ≠ .ok ⟨.ok tree, unread⟩ := by
  have hs := hg.sound
  have hparse := parseTokens_of_setup hstart
  constructor
  · have hprogress := (Parser.InProgress.setup hstart).feed hs hgoes
    obtain ⟨base, hbase, hholds⟩ := Parser.Holds.setup hs rfl hstart
    obtain ⟨hgrammar, hstack⟩ := hholds.feed hs (Grammar.mem_of_automaton? hbase) tokens
    have hlinked := (hstack.resolve_left hprogress.stack_ne_nil).linked
    have hmarker : grammar.resolve? (Token.endMarker 0).kind (Token.endMarker 0).text = some last := hlast
    obtain ⟨more, hfinishes⟩ := hlinked.exists_finishes hs hcompletable hdecided hmarker hbase
    have hknown := hprogress.known hs
    rw [← hgrammar] at hs hfinishes
    obtain ⟨tree, unread, hrun⟩ := hfinishes.run_eq_ok hs hknown rfl (Parser.lastStop 0 tokens)
    refine ⟨more ++ [.endMarker 0], tree, unread, ?_⟩
    rw [hparse, hgoes.run_append, hrun]
  · intro token error next hpush more tree unread haccepted
    rw [hparse, hgoes.run_of_error hpush] at haccepted
    cases haccepted

/-- From its states, a nested sentence is completed by `c`, by an inner sentence and `b`, and by `b`. -/
theorem Grammar.completable_nested : Grammar.nested.Completable := by
  have hc : (⟨⟨2⟩, 3⟩ : Arc) ∈ (Automaton.nested.state 0).arcs := by decide
  have hinner : (⟨⟨3⟩, 2⟩ : Arc) ∈ (Automaton.nested.state 1).arcs := by decide
  have hb : (⟨⟨1⟩, 3⟩ : Arc) ∈ (Automaton.nested.state 2).arcs := by decide
  have hderivation : Grammar.nested.Derivation (.ofIndex 0) (.node (.ofIndex 0) [.leaf ⟨.name, "c", .empty 1⟩]) :=
    .node rfl (List.cons_ne_nil _ _) (.cons hc (by cbv) (.nil 3)) rfl (by simp [Tree.symbol?])
  have hfrom2 : Grammar.nested.Advances .nested 2 3 := ⟨_, hb, rfl, .inl ⟨.name, some "b", rfl⟩⟩
  have hfrom1 : Grammar.nested.Advances .nested 1 2 := ⟨_, hinner, rfl, .inr ⟨_, _, by cbv, hderivation⟩⟩
  have hfrom0 : Grammar.nested.Advances .nested 0 3 := ⟨_, hc, rfl, .inl ⟨.name, some "c", rfl⟩⟩
  intro automaton hmem state hstate
  obtain rfl : automaton = .nested := by simpa [Grammar.nested] using hmem
  refine ⟨3, ?_, rfl⟩
  have hsize : Automaton.nested.states.size = 4 := rfl
  obtain rfl | rfl | rfl | rfl : state = 0 ∨ state = 1 ∨ state = 2 ∨ state = 3 := by
    simp only [← UInt32.toNat_inj]
    simp
    omega
  · exact .single hfrom0
  · exact .head hfrom1 (.single hfrom2)
  · exact .single hfrom2
  · exact .refl

/-- After `a` a nested sentence can be completed, but not if a `b` comes next. -/
theorem Grammar.parseTokens_viable_prefix_nested :
    (∃ more tree unread, Grammar.nested.parseTokens (.ofIndex 0) (⟨.name, "a", .empty 0⟩ :: more) =
      .ok ⟨.ok tree, unread⟩) ∧
    ∀ more tree unread, Grammar.nested.parseTokens (.ofIndex 0)
      (⟨.name, "a", .empty 0⟩ :: ⟨.name, "b", .empty 1⟩ :: more) ≠ .ok ⟨.ok tree, unread⟩ := by
  have hgoes : Parser.nested.GoesOn [⟨.name, "a", .empty 0⟩] :=
    (Parser.goesOn_cons_iff _ _).2 ⟨by cbv, .nil _⟩
  have hlast : Grammar.nested.resolve? .endMarker "" = some .implicitEnd := by cbv
  have hanswer : ((Parser.nested.feed [⟨.name, "a", .empty 0⟩]).pushToken ⟨.name, "b", .empty 1⟩).1 =
      .error ⟨.badInput, ⟨.name, "b", .empty 1⟩, [⟨0⟩, ⟨2⟩]⟩ := by cbv
  obtain ⟨hviable, hrejected⟩ := parseTokens_viable_prefix (.ofTable .nested Table.ofTable_nested) Parser.setup_nested
    hlast completable_nested (decided_nested .implicitEnd) hgoes
  exact ⟨hviable, hrejected _ _ _ (Prod.ext hanswer rfl)⟩

end Pushdown
