import GrammarEvolution.Proofs.Growth
import GrammarEvolution.Proofs.Script
import GrammarEvolution.Proofs.Tree.Frame
import GrammarEvolution.Proofs.Tree.Reached

/-!
Growth on the tree itself.

`grow` works a derivation out from its leaves and numbers its nodes when it is done. The same can be
done on a numbered tree, by expansions: a production is put below a node, and then the new nodes are
grown from left to right, each down to its leaves before the next. The numbers that come of it are
others, as children are numbered before grandchildren.

`Together` relates two samplings that draw alike. A node waits at an address when it is childless
and holds a symbol; to fill a waiting node changes no other.

* `Tree.Fills`: what filling a node does.
* `growEach_together`: the new nodes are filled as their symbols are grown.
* `growBelow_together`: so a node is filled with what its symbol grows into.
* `growTree_agrees`: growth on a tree ends with the tree of the shape that `grow` answers, or fails
  as `grow` does.
-/

namespace GrammarEvolution

open Rose (node)

namespace Sampling

variable {σ α β α' β' : Type}

/-- Two samplings that answer from every state of the source, with related answers, and leave the
source in the same state. -/
def Together (x : Sampling σ α) (y : Sampling σ β) (R : α → β → Prop) : Prop :=
  ∀ s, ∃ a b, x.answer s = .ok a ∧ y.answer s = .ok b ∧ R a b ∧ x.rest s = y.rest s

variable {x : Sampling σ α} {y : Sampling σ β} {R : α → β → Prop} {Q : α' → β' → Prop}

theorem together_pure {a : α} {b : β} (h : R a b) :
    Together (pure a : Sampling σ α) (pure b) R :=
  fun _ => ⟨a, b, rfl, rfl, h, rfl⟩

/-- A sampling draws as it does itself. -/
theorem Always.together {P : α → Prop} (h : x.Always P) : Together x x fun a b => a = b ∧ P a := by
  intro s
  obtain ⟨a, ok, ha⟩ := h s
  exact ⟨a, a, ok, ok, ⟨rfl, ha⟩, rfl⟩

theorem Together.bind {f : α → Sampling σ α'} {k : β → Sampling σ β'} (h : Together x y R)
    (next : ∀ a b, R a b → Together (f a) (k b) Q) : Together (x >>= f) (y >>= k) Q := by
  intro s
  obtain ⟨a, b, okA, okB, related, same⟩ := h s
  obtain ⟨a', b', okA', okB', related', same'⟩ := next a b related (x.rest s)
  refine ⟨a', b', ?_, ?_, related', ?_⟩
  · rw [answer_bind, okA]
    exact okA'
  · rw [answer_bind, okB, ← same]
    exact okB'
  · rw [rest_bind okA, rest_bind okB, same', same]

/-- What is made of the answer on one side draws nothing. -/
theorem Together.map_left {f : α → α'} {Q : α' → β → Prop} (h : Together x y R)
    (next : ∀ a b, R a b → Q (f a) b) : Together (x >>= fun a => pure (f a)) y Q := by
  have whole := h.bind (k := pure) fun a b related => together_pure (next a b related)
  rwa [bind_pure] at whole

end Sampling

/-! ### Waiting nodes -/

namespace Tree

variable {t : Tree} {n : Nat} {p : List Nat} {s : SymbolId}

/-- A childless node that holds `s` stands at an address. -/
structure Waits (t : Tree) (n : Nat) (p : List Nat) (s : SymbolId) : Prop where
  stands : t.StandsAt n p
  leaf : t.children n = []
  symbol : t.symbol n = s

/-- What filling a waiting node does: the shape has something else in its place, and all other nodes
that wait go on waiting. -/
structure Fills (t : Tree) (n : Nat) (p : List Nat) (r : Rose SymbolId) (t' : Tree) : Prop where
  wellFormed : t'.WellFormed
  shape : t'.shape = t.shape.replaceAt r p
  waits : ∀ m q s, t.Waits m q s → m ≠ n → t'.Waits m q s

theorem wellFormed_single (s : SymbolId) : (single s).WellFormed :=
  wellFormed_ofShape (.node s [])

theorem waits_single (s : SymbolId) : (single s).Waits 0 [] s where
  stands := standsAt_nil_iff.mpr rfl
  leaf := rfl
  symbol := rfl

theorem WellFormed.shapeAt_of_waits (h : t.WellFormed) (here : t.Waits n p s) :
    t.shapeAt n = .node s [] := by
  rw [h.shapeAt_eq, here.leaf, here.symbol, List.map_nil]

/-- A node that stays a leaf is filled with itself. -/
theorem Waits.fills (here : t.Waits n p s) (h : t.WellFormed) : t.Fills n p (.node s []) t where
  wellFormed := h
  shape := by
    rw [← h.shapeAt_of_waits here, Rose.replaceAt_subtreeAt here.stands.subtreeAt_shape]
  waits _ _ _ there _ := there

/-- New nodes below a waiting node fill it with leaves, and these wait. -/
theorem Waits.pushChildren (here : t.Waits n p s) (h : t.WellFormed) (ss : List SymbolId) :
    t.Fills n p (.node s (ss.map fun s => .node s [])) (t.pushChildren n ss).2 ∧
      ∀ i s', ss[i]? = some s' →
        (t.pushChildren n ss).2.Waits (t.nodes.size + i) (p ++ [i]) s' := by
  have inside := h.lt_size_of_standsAt here.stands
  have wellFormed := h.pushChildren inside ss
  have frame : ∀ k < t.nodes.size, k ≠ n → (t.pushChildren n ss).2.children k = t.children k :=
    fun k _ other => by rw [children_pushChildren inside, if_neg other]
  constructor
  · refine ⟨wellFormed, ?_, fun m q s there other => ?_⟩
    · rw [h.shape_pushChildren here.stands here.leaf, here.symbol]
    · have old := h.lt_size_of_standsAt there.stands
      exact {
        stands := h.standsAt_of_frame wellFormed here.leaf frame there.stands
        leaf := by rw [frame m old other, there.leaf]
        symbol := by rw [symbol_pushChildren inside old, there.symbol] }
  · intro i s' hs'
    have above := h.standsAt_of_frame wellFormed here.leaf frame here.stands
    obtain ⟨within, rfl⟩ := List.getElem?_eq_some_iff.mp hs'
    exact {
      stands := wellFormed.standsAt_concat_iff.mpr ⟨n, above, by
        rw [children_pushChildren inside, if_pos rfl, here.leaf, List.nil_append,
          List.getElem?_range' within, Nat.one_mul]⟩
      leaf := by
        rw [children_pushChildren inside, if_neg (by omega), children_eq_nil (by omega)]
      symbol := by
        have held : (List.range' t.nodes.size ss.length).map (t.pushChildren n ss).2.symbol = ss :=
          map_symbol_pushChildren inside
        have there := congrArg (·[i]?) held
        simpa [List.getElem?_range' within, within] using there }

end Tree

namespace Growth

open Sampling

variable {V σ : Type} [RandomSource σ] {g : Grammar V} {d : DepthTable} {s : SymbolId}
  {depth : Nat} {t : Tree} {n : Nat} {p : List Nat}

/-! ### Growth by expansion -/

/-- Grows a derivation below a childless node that holds a non-terminal: puts one of the viable
productions there, and then grows the new nodes in their order. -/
def growBelow (g : Grammar V) (d : DepthTable) : Nat → Tree → Nat → Sampling σ Tree
  | 0, t, n => throw (.structural (.noFittingProduction (g.name (t.symbol n)) 0))
  | below + 1, t, n => do
      let p ← chooseViable g d (t.symbol n) (below + 1)
      let expanded ← g.expand t n (g.productions.getD p default)
      expanded.1.foldlM (fun t c =>
        if g.isNonTerminal (t.symbol c) then growBelow g d below t c else return t) expanded.2

/-- Grows a tree from the single node of its symbol. -/
def growTree (g : Grammar V) (d : DepthTable) (depth : Nat) (s : SymbolId) : Sampling σ Tree :=
  if g.isNonTerminal s then growBelow g d depth (.single s) 0 else return .single s

/-! ### Growing alike -/

omit [RandomSource σ] in
/-- **The new nodes are filled as their symbols are grown.** The nodes to the left of those that
wait are done, and what has become of them stays. -/
theorem growEach_together {whole : Rose SymbolId} {ss : List SymbolId}
    {grown : SymbolId → Sampling σ (Rose SymbolId)} {fill : Tree → Nat → Sampling σ Tree}
    (each : ∀ s' ∈ ss, ∀ t c q, t.WellFormed → t.Waits c q s' →
      Together (grown s') (fill t c) (t.Fills c q))
    (done : List (Rose SymbolId)) {k : Nat} (h : t.WellFormed)
    (shape : t.shape = whole.replaceAt (node s (done ++ ss.map fun s' => node s' [])) p)
    (waiting : ∀ i s', ss[i]? = some s' → t.Waits (k + i) (p ++ [done.length + i]) s') :
    Together (ss.mapM grown) ((List.range' k ss.length).foldlM fill t) fun rs t' =>
      t'.WellFormed ∧ t'.shape = whole.replaceAt (node s (done ++ rs)) p ∧
        ∀ m q s', t.Waits m q s' → m < k → t'.Waits m q s' := by
  induction ss generalizing done k t with
  | nil => exact together_pure ⟨h, shape, fun m q s' there _ => there⟩
  | cons s' ss ih =>
      rw [List.mapM_cons, List.length_cons, List.range'_succ, List.foldlM_cons]
      have here := waiting 0 s' rfl
      refine (each s' List.mem_cons_self t k _ h here).bind fun r t' fills => ?_
      have shape' : t'.shape =
          whole.replaceAt (node s (done ++ [r] ++ ss.map fun s' => node s' [])) p := by
        rw [fills.shape, shape, Nat.add_zero, Rose.replaceAt_append, Rose.replaceAt,
          Rose.label_node, Rose.children_node, List.map_cons, List.modify_append_cons,
          Rose.replaceAt_nil, List.append_assoc, List.singleton_append]
      -- The nodes that still wait are others than the one just filled, as their numbers are larger.
      have waiting' : ∀ i s'', ss[i]? = some s'' →
          t'.Waits (k + 1 + i) (p ++ [(done ++ [r]).length + i]) s'' := by
        intro i s'' hs''
        have there := waiting (i + 1) s'' hs''
        rw [List.length_append, List.length_singleton, Nat.add_assoc, Nat.add_assoc,
          Nat.add_comm 1 i]
        exact fills.waits _ _ _ there (by omega)
      have rest := ih (fun s'' hs'' => each s'' (List.mem_cons_of_mem s' hs'')) (done ++ [r])
        fills.wellFormed shape' waiting'
      refine rest.map_left ?_
      rintro rs t'' ⟨wellFormed, shape'', keeps⟩
      refine ⟨wellFormed, by simpa using shape'', fun m q s'' there before => ?_⟩
      exact keeps m q s'' (fills.waits m q s'' there (Nat.ne_of_lt before)) (by omega)

/-- **A node is filled with what its symbol grows into**, on the same draws. -/
theorem growBelow_together (sound : d.Sound g) (fits : Fits g d s depth)
    (kind : g.isNonTerminal s = true) (h : t.WellFormed) (here : t.Waits n p s) :
    Together (grow g d depth s : Sampling σ _) (growBelow g d depth t n) (t.Fills n p) := by
  induction depth generalizing s t n p with
  | zero =>
      obtain ⟨q, choice⟩ := List.exists_mem_of_ne_nil _ (viable_ne_nil fits kind)
      exact absurd (fits_below sound choice).1 (Nat.lt_irrefl 0)
  | succ below ih =>
      rw [grow, if_pos kind, growBelow, here.symbol]
      refine (chooseViable_always fits kind).together.bind ?_
      rintro q _ ⟨rfl, choice⟩
      have expanded : g.expand t n (g.productions.getD q default) =
          .ok (t.pushChildren n (g.rhs q)) := by
        obtain ⟨production, found, owner⟩ :=
          Grammar.mem_productionsOf_iff.mp (mem_viable_iff.mp choice).1
        rw [Array.getD_eq_getD_getElem?, found, Option.getD_some, Grammar.rhs_eq found]
        exact Tree.expand_eq_ok_iff.mpr
          ⟨here.symbol.trans owner.symm, by simp [Tree.isLeaf, here.leaf], rfl⟩
      obtain ⟨pushed, waiting⟩ := here.pushChildren h (g.rhs q)
      have each : ∀ s' ∈ g.rhs q, ∀ t c r, t.WellFormed → t.Waits c r s' →
          Together (grow g d below s' : Sampling σ _)
            (if g.isNonTerminal (t.symbol c) then growBelow g d below t c else return t)
            (t.Fills c r) := by
        intro s' hs' t c r h here
        rw [here.symbol]
        split
        · rename_i kind
          exact ih ((fits_below sound choice).2 s' hs') kind h here
        · rename_i terminal
          rw [grow_terminal (eq_false_of_ne_true terminal)]
          exact together_pure (here.fills h)
      have filled := growEach_together each [] pushed.wellFormed pushed.shape
        (by simpa using waiting)
      rw [← Tree.fst_pushChildren] at filled
      rw [expanded]
      refine filled.map_left ?_
      rintro rs t' ⟨wellFormed, shape, keeps⟩
      refine ⟨wellFormed, shape, fun m r s' there other => ?_⟩
      exact keeps m r s' (pushed.waits m r s' there other) (h.lt_size_of_standsAt there.stands)

/-- **Growth on a tree agrees with growth.** It draws as `grow` does and ends with a tree of the
shape that this answers, or it fails as this does. -/
theorem growTree_agrees (sound : d.Sound g) (depth : Nat) (s : SymbolId) (source : σ) :
    match (grow g d depth s).answer source with
    | .ok r => ∃ t, (growTree g d depth s).answer source = .ok t ∧ t.WellFormed ∧ t.shape = r ∧
        (growTree g d depth s).rest source = (grow g d depth s).rest source
    | .error e => (growTree g d depth s).answer source = .error e := by
  by_cases fits : Fits g d s depth
  · cases kind : g.isNonTerminal s with
    | true =>
        obtain ⟨r, t, ok, ok', fills, same⟩ := growBelow_together sound fits kind
          (Tree.wellFormed_single s) (Tree.waits_single s) source
        rw [ok, growTree, if_pos kind]
        exact ⟨t, ok', fills.wellFormed, fills.shape, same.symm⟩
    | false =>
        rw [grow_terminal kind, growTree, if_neg (by simp [kind])]
        exact ⟨_, rfl, Tree.wellFormed_single s, Tree.shape_ofShape (node s []), rfl⟩
  · have kind := (Classical.not_imp.mp fits).1
    rw [answer_grow fits, growTree, if_pos kind]
    cases depth with
    | zero => rfl
    | succ below =>
        rw [growBelow, (Tree.waits_single s).symbol, answer_bind, answer_chooseViable fits]
        rfl

end Growth

end GrammarEvolution
