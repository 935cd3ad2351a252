import DeferredIR.Proofs.Ordered
import DeferredIR.Proofs.Substitution
import DeferredIR.Proofs.UseLists

/-!
# Folds as checked edits

A fold redirects the readers of a node without asking whether they may read what the node restates.
In a graph where every node reads older values they always may: what a node restates is of its
function, it is older than the result, and it has not been folded away, since it is a formal
argument or read by a live node. So the checked replacement accepts it, and a fold is a checked
replacement followed by the removal of a node that nothing reads.
-/

namespace DeferredIR

open DeferredIR.Graph

variable {g : Graph} {options : FoldOptions} {n : NodeId} {x : Node} {v : ValueId}

namespace Graph

/-- Only an argument node restates a value of a type that is not known. -/
theorem Restates.isArg_of_undefined (hr : g.Restates options x v) (ht : g.typeOf v = .undefined) :
    ∃ index name, x.opcode = .arg index name := by
  cases hr with
  | arg hk _ _ => exact ⟨_, _, hk⟩
  | cast _ _ hs => exact absurd ht hs.2
  | projection _ _ _ _ _ hs => exact absurd ht hs.2

/-- A node that a fold rule applies to is live, and the rule gives an older value that is of the
function of the node, was not folded away and has the type of the result, a known one unless the
node is an argument node. The checked replacement of the result by this value succeeds and counts
the slots of live nodes that read the result. Retiring the node then leads to a graph in which
verification finds nothing, and it is the graph that folding the node leads to. -/
theorem OrderedReachable.replacement_accepted (h : g.OrderedReachable)
    (hr : g.replacement? options n = .ok (some v)) :
    ∃ x, (g.nodes[n.index]? = some x ∧ x.dead = false) ∧
      (v.index < g.values.size ∧ v.index < x.result.index ∧ g.Available x.func v) ∧
      (g.typeOf v = g.typeOf x.result ∧
        (g.typeOf x.result = .undefined → ∃ index name, x.opcode = .arg index name)) ∧
      ∃ k k', (Edit.replace x.result v).run g = .ok (g.readCount x.result) k ∧
        (Edit.retire n).run k = .ok () k' ∧ k'.verify = .ok () ∧
        (Edit.foldNode options n).run g = .ok (some x.opcode) k' := by
  have hwf := h.wellFormed
  obtain ⟨x, hx, hd, hs⟩ := restates_of_replacement? hr
  have hresult := hwf.owner?_result hx
  have howner := hs.owner? hwf hx
  have hlt := hs.index_lt hwf h.ordered hx
  have hne : x.result ≠ v := fun he => Nat.lt_irrefl _ (he ▸ hlt)
  obtain ⟨-, -, hu⟩ := h.invariant
  have hlive : ¬ g.Folded v := hu.not_folded_of_restates hwf hx hd hs not_false
  have hreplace : (Edit.replace x.result v).run g =
      .ok (g.readCount x.result) (g.redirect x.result v) := by
    rw [Edit.run_replace, hwf.requireReplaceable_eq_ok hresult howner hlive, ← hwf.length_usesOf]
    simpa only [if_neg hne] using
      Edit.run_redirect_eq hwf (lt_of_owner? hresult) (lt_of_owner? howner)
  have hretire := Edit.run_retire_of_restates hwf hx hd hs
  rw [if_neg hne] at hretire
  have hunread : (g.fold n x.result v).Unread fun _ => False :=
    hu.fold hwf hx hd hs fun he => hne he.symm
  have hverify : (g.fold n x.result v).verify = .ok () :=
    (hwf.fold hx hs).verify_eq_ok_iff.mpr fun w hw => hunread w hw not_false
  exact ⟨x, ⟨hx, hd⟩, ⟨lt_of_owner? howner, hlt, available_of_owner? howner hlive⟩,
    ⟨hs.typeOf_eq, fun ht => hs.isArg_of_undefined (hs.typeOf_eq.trans ht)⟩,
    _, _, hreplace, hretire, hverify, Edit.run_foldNode_some hwf hx hr⟩

/-- The first item of a pair, which is read in three slots, by the sum that it is. -/
theorem OrderedReachable.replacement_accepted_of_pair :
    let g := (ofTable { names := ["int"] }).after
      [.addFunc "f" [⟨1⟩],
        .build ⟨0⟩ {} (.node { opcode := .binop "+", operands := [⟨0⟩, ⟨0⟩], type := ⟨1⟩ }),
        .build ⟨0⟩ {} (.tuple [⟨1⟩, ⟨0⟩]),
        .build ⟨0⟩ {} (.node { opcode := .pairFirst, operands := [⟨2⟩], type := ⟨1⟩ }),
        .build ⟨0⟩ {} (.binop ⟨3⟩ ⟨3⟩ "*"), .build ⟨0⟩ {} (.iter ⟨4⟩), .replace ⟨4⟩ ⟨3⟩]
    g.replacement? { structural := true } ⟨2⟩ = .ok (some ⟨1⟩) ∧
      g.typeOf ⟨1⟩ = g.typeOf ⟨3⟩ ∧
      ∃ k k', (Edit.replace ⟨3⟩ ⟨1⟩).run g = .ok 3 k ∧ (Edit.retire ⟨2⟩).run k = .ok () k' ∧
        k'.verify = .ok () := by
  intro g
  have h : g.OrderedReachable := (init _).after (by simp [ValueId.NoNewer])
  have hr : g.replacement? { structural := true } ⟨2⟩ = .ok (some ⟨1⟩) := by
    unfold g
    rfl
  have hx : g.nodes[2]? = some ⟨.pairFirst, [⟨2⟩], ⟨3⟩, ⟨0⟩, false⟩ := by
    unfold g
    rfl
  have hcount : g.readCount ⟨3⟩ = 3 := by
    unfold g
    decide
  clear_value g
  obtain ⟨x, ⟨hx', -⟩, -, ⟨htype, -⟩, k, k', hreplace, hretire, hverify, -⟩ :=
    h.replacement_accepted hr
  obtain rfl := Option.some.inj (hx.symm.trans hx')
  rw [hcount] at hreplace
  exact ⟨hr, htype, k, k', hreplace, hretire, hverify⟩

end Graph

end DeferredIR
