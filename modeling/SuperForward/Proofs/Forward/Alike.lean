/-
  Forwards of programs that are alike.

  Where nodes are alike, functions are assigned by the same statements, to the same names, and
  pass on the same arguments. Whether they are forwards depends besides on the types of callees
  and on what is known about superclasses.
-/
import SuperForward.Proofs.Forward.Removing
import SuperForward.Proofs.Program.Likeness

namespace SuperForward.Removal

open SuperForward.Forward (ExactForward Forwarded below_child typeOf? isSuperclassMethod)
open SuperForward.Program (root Below Likeness)

section

variable {p q : Program} {f : Handle → Handle} (h : Likeness p q f) (hp : p.Parsed)
  {fn call assign statement : Handle} {name : QualifiedName}
include h

theorem parent_alike {n above : Handle} (hn : p.Below root n)
    (hlink : p.parentOf n = some above) : q.parentOf (f n) = some (f above) := by
  rw [h.parentOf hn, hlink]
  rfl

include hp

theorem assignedIn_alike (hfn : p.Below root fn) (ha : AssignedIn p fn assign statement) :
    AssignedIn q (f fn) (f assign) (f statement) := by
  have hassign := hp.below_parent hfn ha.fn_parent
  have hstatement := hp.below_parent hassign ha.assign_parent
  exact ⟨(h.kindOf? hfn).trans ha.fn_kind, parent_alike h hfn ha.fn_parent,
    (h.kindOf? hassign).trans ha.assign_kind, parent_alike h hassign ha.assign_parent,
    (h.kindOf? hstatement).trans ha.statement_kind⟩

theorem onlyCall_alike (hfn : p.Below root fn) (hkind : p.kindOf? fn = some .function)
    (ho : OnlyCall p fn call) : OnlyCall q (f fn) (f call) ∧ p.Below root call := by
  obtain ⟨body, statement, hlast, hbody, hsort, hcall, hcallKind⟩ := ho
  obtain ⟨name, params, body', hchildren, -, -, hblock⟩ := hp.children_function hfn hkind
  have hbody' : body' = body := by
    rw [hchildren] at hlast
    exact Option.some.inj hlast
  subst hbody'
  have hbelow := below_child hp hfn (List.mem_of_getLast? hlast)
  have hstatement := below_child hp hbelow (c := statement) (by rw [hbody]; simp)
  have hbelowCall := below_child hp hstatement (c := call) (by rw [hcall]; simp)
  have hne : statement ≠ root := by
    rcases hsort with hk | hk
    · exact hp.ne_root_of_kind hk (by simp)
    · exact hp.ne_root_of_kind hk (by simp)
  refine ⟨⟨f body', f statement, ?_, ?_, ?_, ?_, (h.kindOf? hbelowCall).trans hcallKind⟩,
    hbelowCall⟩
  · rw [h.childrenOf hfn (hp.ne_root_of_kind hkind (by simp)), List.getLast?_map, hlast]
    rfl
  · rw [h.childrenOf hbelow (hp.ne_root_of_kind hblock (by simp)), hbody]
    rfl
  · rw [h.kindOf? hstatement]
    exact hsort
  · rw [h.childrenOf hstatement hne, hcall]
    rfl

theorem forwarded_alike {params args : List Handle} (hparams : ∀ n ∈ params, p.Below root n)
    (hargs : ∀ n ∈ args, p.Below root n) (hf : Forwarded p params args) :
    Forwarded q (params.map f) (args.map f) := by
  unfold Forwarded at hf ⊢
  rw [List.forall₂_map_left_iff, List.forall₂_map_right_iff]
  induction hf with
  | nil => exact .nil
  | @cons param arg params args hpair _ ih =>
    obtain ⟨hkind, names, hs, hs'⟩ := hpair
    have hparam := hparams param (List.mem_cons_self ..)
    have harg := hargs arg (List.mem_cons_self ..)
    exact .cons ⟨(h.kindOf? harg).trans hkind, names, h.spells hp hparam hs, h.spells hp harg hs'⟩
      (ih (fun n hn => hparams n (List.mem_cons_of_mem _ hn))
        fun n hn => hargs n (List.mem_cons_of_mem _ hn))

/-- What makes a call an exact forward but for types and superclasses is alike. -/
theorem exactForward_alike {r s : Registry} (hfn : p.Below root fn)
    (hkind : p.kindOf? fn = some .function) (hcall : p.Below root call)
    (hcallKind : p.kindOf? call = some .call)
    (htype : ∀ callee, (p.childrenOf call).head? = some callee →
      typeOf? q (f callee) = typeOf? p callee)
    (hsuper : ∀ callee, ∀ called : QualifiedName, (p.childrenOf call).head? = some callee →
      p.Spells callee called.names → isSuperclassMethod s name called = isSuperclassMethod r name called)
    (he : ExactForward p r fn call name) : ExactForward q s (f fn) (f call) name := by
  have hcallRoot := hp.ne_root_of_kind hcallKind (by simp)
  have hchildren := h.childrenOf hcall hcallRoot
  have hhead {callee : Handle} (hcallee : (p.childrenOf call).head? = some callee) :
      p.Below root callee ∧ (q.childrenOf (f call)).head? = some (f callee) := by
    refine ⟨below_child hp hcall (List.mem_of_mem_head? hcallee), ?_⟩
    rw [hchildren, List.head?_map, hcallee]
    rfl
  -- arguments, result and target, each carried over by itself
  refine ⟨?_, ?_, ?_⟩
  · obtain ⟨params, callee, receiver, args, hparams, hlist, hthis, hforwarded⟩ := he.args
    have hbelow : ∀ n ∈ callee :: receiver :: args, p.Below root n :=
      fun n hn => below_child hp hcall (hlist ▸ hn)
    obtain ⟨name', params', body, hcs, -, hlistKind, -⟩ := hp.children_function hfn hkind
    have hparams' : params' = params := by
      rw [hcs] at hparams
      exact Option.some.inj hparams
    subst hparams'
    have hparamsBelow := below_child hp hfn (List.mem_of_getElem? hparams)
    refine ⟨f params', f callee, f receiver, args.map f, ?_, ?_, ?_, ?_⟩
    · rw [h.childrenOf hfn (hp.ne_root_of_kind hkind (by simp)), List.getElem?_map, hparams]
      rfl
    · rw [hchildren, hlist]
      rfl
    · exact (h.kindOf? (hbelow receiver (by simp))).trans hthis
    · rw [h.childrenOf hparamsBelow (hp.ne_root_of_kind hlistKind (by simp))]
      exact forwarded_alike h hp (fun n hn => below_child hp hparamsBelow hn)
        (fun n hn => hbelow n (List.mem_cons_of_mem _ (List.mem_cons_of_mem _ hn))) hforwarded
  · obtain ⟨callee, type, returns, hcallee, hknown, hreturns, hdefinite⟩ := he.result
    obtain ⟨hbelow, hcallee'⟩ := hhead hcallee
    refine ⟨f callee, type, returns, hcallee', (htype callee hcallee).trans hknown, hreturns, ?_⟩
    intro hd
    obtain ⟨parent, hparent, hparentKind⟩ := hdefinite hd
    exact ⟨f parent, parent_alike h hcall hparent,
      (h.kindOf? (hp.below_parent hcall hparent)).trans hparentKind⟩
  · obtain ⟨callee, called, hcallee, hspells, hmatch⟩ := he.target
    obtain ⟨hbelow, hcallee'⟩ := hhead hcallee
    exact ⟨f callee, called, hcallee', h.spells hp hbelow hspells,
      (hsuper callee called hcallee hspells).trans hmatch⟩

variable (hq : q.Parsed)
include hq

/-- The only call of the function has a callee of the same type in both programs, and is as far
as superclasses are concerned a call of the same method. -/
def SameCallee (p q : Program) (f : Handle → Handle) (r s : Registry) (fn : Handle) : Prop :=
  ∀ call callee, OnlyCall p fn call → (p.childrenOf call).head? = some callee →
    typeOf? q (f callee) = typeOf? p callee ∧
      ∀ name called : QualifiedName, p.functionName fn = .ok (some name) →
        p.Spells callee called.names → isSuperclassMethod s name called = isSuperclassMethod r name called

theorem forwarder_alike {r s : Registry} {tags : List String} (hfn : p.Below root fn)
    (hsame : SameCallee p q f r s fn) (hf : Forwarder p r tags fn assign statement name) :
    Forwarder q s tags (f fn) (f assign) (f statement) name := by
  have hassign := hp.below_parent hfn hf.assigned.fn_parent
  have hkind := hf.assigned.fn_kind
  obtain ⟨call, honly, hexact⟩ := hf.forwards
  obtain ⟨honly', hcall⟩ := onlyCall_alike h hp hfn hkind honly
  have hcallKind : p.kindOf? call = some .call := by
    obtain ⟨-, -, -, -, -, -, hcallKind⟩ := honly
    exact hcallKind
  refine ⟨assignedIn_alike h hp hfn hf.assigned, fun hprotected => hf.unprotected ?_,
    (h.functionName hp hq hfn hkind).trans hf.named, f call, honly',
    exactForward_alike h hp hfn hkind hcall hcallKind
      (fun callee hcallee => (hsame call callee honly hcallee).1)
      (fun callee called hcallee hspells =>
        (hsame call callee honly hcallee).2 name called hf.named hspells) hexact⟩
  -- documentation that is alike has the same tags
  obtain ⟨doc, hdoc, htags⟩ := hprotected
  have hdocs := h.docs hassign
  rw [hdoc] at hdocs
  obtain ⟨doc', hdoc', hunplaced⟩ := Option.map_eq_some_iff.mp hdocs.symm
  have hsameTags : doc'.unplaced.tags = doc.unplaced.tags := congrArg DocComment.tags hunplaced
  exact ⟨doc', hdoc', hsameTags ▸ htags⟩

theorem assignedAs_alike (hfn : p.Below root fn) (ha : AssignedAs p fn name) :
    AssignedAs q (f fn) name := by
  obtain ⟨⟨assign, statement, hassigned⟩, hname⟩ := ha
  exact ⟨⟨f assign, f statement, assignedIn_alike h hp hfn hassigned⟩,
    (h.functionName hp hq hfn hassigned.fn_kind).trans hname⟩

/-- The like of what is to be taken out is to be taken out, if its callee is known alike. -/
theorem removable_alike {r s : Registry} {tags : List String}
    (hsame : SameCallee p q f r s fn) (hr : Removable p r tags root fn statement name) :
    Removable q s tags root (f fn) (f statement) name := by
  obtain ⟨assign, hf⟩ := hr.forwarder
  refine ⟨h.below hr.within, ⟨f assign, forwarder_alike h hp hq hr.within hsame hf⟩, ?_⟩
  intro m hm hname
  obtain ⟨back, hinverse⟩ := h.exists_inverse hp hq
  obtain ⟨g, hg, rfl⟩ := h.surjective hp hq hm
  have hname' := assignedAs_alike (h.symm hp hq hinverse) hq hp hm hname
  rw [hinverse g hg] at hname'
  rw [hr.alone g hg hname']

end

end SuperForward.Removal
