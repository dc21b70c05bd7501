import Mathlib
import Reenact.Proofs.Wrapper

/-!
The generator as a whole: whichever adaptor takes a node, running the code it emits and evaluating
the expression it returns gives a value that shows the node.
-/

namespace Reenact.Reconstruction

variable {types : ClassTable} {g : Graph} {s : State} {m : Machine} {id : NodeId}

/-- Lists and sets that no adaptor for wrappers takes are of classes that code can allocate. -/
private theorem allocates_of_wrapperKind? {collection : String} {shape : Shape} {declared runtime : Ty}
    {content : Content} (hcollection : collection ∈ ["List", "Set"])
    (hkind : ¬ ((Node.composite declared runtime content).wrapperKind? collection).isSome)
    (hsuits : types.allocates shape runtime || runtime.isWrapper collection) :
    types.allocates shape runtime := by
  rcases Bool.or_eq_true_iff.1 hsuits with halloc | hwrapper
  · exact halloc
  · obtain ⟨kind, args, rfl⟩ := Ty.isWrapper_iff.1 hwrapper
    have hall : ∀ kind ∈ WrapperKind.all, ∀ collection ∈ ["List", "Set"],
        (wrapperKind? collection (kind.className collection)).isSome := by
      decide +kernel
    exact absurd (hall kind kind.mem_all collection hcollection) hkind

section

variable {build : Task → Build Expr} (ht : types.ExtendsBuiltin) (hbuild : BuildsValues types g build)
  (hpayloads : BuildsPayloads types g build)
include ht hbuild hpayloads

theorem dispatch_simulated (hready : Ready g s m) (hnew : findValue? id s.built = none)
    (hsound : g.Sound types id) :
    Simulated types g (Leads g.children id) idle s m (dispatch (context types g) build id)
      (Renders types g id) := by
  obtain ⟨n, hn, hnode⟩ := hsound id .refl
  unfold dispatch
  refine .look (node_apply hn) ?_
  cases n with
  | atom a =>
    cases a with
    | literal type l => exact .pure hready ⟨.scalar l, .scalar hn hnode, Evaluate.yields_literal l⟩
    | null type => exact .pure hready ⟨.null, .null hn, Evaluate.yields_null⟩
  | constant declared runtime name =>
    obtain ⟨class_, rfl⟩ := hnode
    exact .pure hready ⟨.constant class_ name, .constant hn, Evaluate.yields_constant _ name⟩
  | composite declared runtime content =>
    cases content with
    | array elements => exact buildArray_simulated hbuild hready hnew hsound hn
    | map entries => exact buildMap_simulated hbuild hready hnew hsound hn
    | object fields => exact buildFields_simulated hbuild hready hnew hsound hn
    | list elements =>
      by_cases hkind : ((Node.composite declared runtime (.list elements)).wrapperKind? "List").isSome
      · simp only [context, select?_list_wrapper (.inl rfl) hkind]
        exact buildWrapper_simulated ht hbuild hpayloads .list (.list elements) hready hnew hsound hn
      · have halloc : types.allocates .list runtime :=
          allocates_of_wrapperKind? (by simp) hkind hnode.1
        simp only [context, select?_list hkind]
        exact buildCollection_simulated hbuild (.list elements) hready hnew hsound hn halloc
    | set elements =>
      by_cases hkind : ((Node.composite declared runtime (.set elements)).wrapperKind? "List").isSome
      · simp only [context, select?_list_wrapper (.inr rfl) hkind]
        exact buildWrapper_simulated ht hbuild hpayloads .list (.set elements) hready hnew hsound hn
      by_cases hkind' : ((Node.composite declared runtime (.set elements)).wrapperKind? "Set").isSome
      · simp only [context, select?_set_wrapper hkind hkind']
        exact buildWrapper_simulated ht hbuild hpayloads .set (.set elements) hready hnew hsound hn
      · have halloc : types.allocates .set runtime :=
          allocates_of_wrapperKind? (by simp) hkind' hnode.1
        simp only [context, select?_set hkind hkind']
        exact buildCollection_simulated hbuild (.set elements) hready hnew hsound hn halloc

end

private theorem payload_of_wrapped (ht : types.ExtendsBuiltin) {build : Task → Build Expr}
    (hbuild : BuildsValues types g build) {collection payload : String} {mk : List Value → Body}
    {shape : Shape} {content : Content} {elements : List NodeId} {declared : Ty} {kind : WrapperKind}
    {args : List Ty} (hwrapped : Wrapped collection payload shape mk)
    (hlinear : Linear content elements shape mk) (hready : Ready g s m)
    (hnew : findValue? id s.built = none) (hsound : g.Sound types id)
    (hn : g.get? id = some (.composite declared (.named (kind.className collection) args) content))
    (hacyclic : ∀ p ∈ elements, ¬ Leads g.children p id) :
    Simulated types g (fun n => ∃ p ∈ elements, Leads g.children p n) idle s m
      (do
        let value ← buildCollection (context types g) build id
          (.composite declared (.named (kind.className collection) args) content) elements
        modify fun st => { st with built := dropEntry id st.built }
        return value)
      (Payload types g elements mk args) := by
  cases hwrapped with
  | list =>
    have hinst := hlinear.instantiate (ht.isList_arrayList args) (fun h => by cases h) m.heap
    exact payload_simulated hbuild hlinear hready hnew hsound hn
      (ht.defaultImplementation_wrapper_list kind args) hinst
      (by decide : Unnumbered (Ty.named "ArrayList" []).localStem) hacyclic rfl
  | set =>
    have hinst := hlinear.instantiate (ht.isSet_linkedHashSet args).1
      (fun _ => (ht.isSet_linkedHashSet args).2) m.heap
    exact payload_simulated hbuild hlinear hready hnew hsound hn
      (ht.defaultImplementation_wrapper_set kind args) hinst
      (by decide : Unnumbered (Ty.named "LinkedHashSet" []).localStem) hacyclic rfl

/-- Every task, whatever the depth it may go to. -/
theorem run_simulated (ht : types.ExtendsBuiltin) (depth : Nat) :
    BuildsValues types g (run (context types g) depth) ∧
      BuildsPayloads types g (run (context types g) depth) := by
  induction depth with
  | zero => exact ⟨fun _ _ => .fail, fun _ _ _ _ _ _ _ => .fail⟩
  | succ depth ih =>
    obtain ⟨hvalues, hpayloads⟩ := ih
    constructor
    · intro part s m hready hsound
      unfold run
      refine .look (Effect.get_apply s) ?_
      cases hl : findValue? part s.built with
      | none => exact dispatch_simulated ht hvalues hpayloads hready hl hsound
      | some l =>
        obtain ⟨a, ha, _⟩ := hready.bound hl
        exact .pure hready ⟨.object a, .object ⟨l, hl, ha⟩, Evaluate.yields_loc ha⟩
    · intro collection payload mk shape content elements id declared kind args s m hwrapped hlinear hready
        hnew hsound hn hacyclic
      have hpayload := payload_of_wrapped ht hvalues hwrapped hlinear hready hnew hsound hn hacyclic
      have hlook := @node_apply s (context types g) id _ hn
      cases hwrapped with
      | list =>
        cases hlinear with
        | list => exact .look hlook hpayload
      | set =>
        cases hlinear with
        | set => exact .look hlook hpayload

end Reenact.Reconstruction
