/-
  Registries that say the same.

  If nothing is declared twice, what a program declares is settled by its declarations and the
  links that are asked for, in any order. Programs that differ in the numbers of their nodes
  come to registries that say the same: methods that override other methods that override are
  dealt with by the depth of their classes.
-/
import SuperForward.Proofs.Types.Settled

namespace SuperForward

open SuperForward.Program (root Below Renumbering)

/-- Two registries say the same about classes, methods and functions. -/
structure Registry.Agrees (r s : Registry) : Prop where
  isClass : ∀ c, s.isClass c = r.isClass c
  superclass? : ∀ c, s.superclass? c = r.superclass? c
  ownMethod? : ∀ c m, s.ownMethod? c m = r.ownMethod? c m
  findMethod : ∀ c m, s.findMethod c m = r.findMethod c m
  functions : ∀ name, s.functions.get? name = r.functions.get? name

namespace Registry.Agrees

variable {r s : Registry} (h : r.Agrees s)
include h

theorem symm : s.Agrees r :=
  ⟨fun c => (h.isClass c).symm, fun c => (h.superclass? c).symm, fun c m => (h.ownMethod? c m).symm,
    fun c m => (h.findMethod c m).symm, fun name => (h.functions name).symm⟩

theorem typeOfCallee? (name : QualifiedName) : s.typeOfCallee? name = r.typeOfCallee? name := by
  unfold Registry.typeOfCallee? typeOfCalled? function?
  simp only [h.superclass?, h.findMethod, h.functions, h.isClass]

end Registry.Agrees

namespace Typing

/-! ## What is announced and asked for -/

/-- What is announced, with another number for the function of a method that waits. -/
def Announcement.renumber (f : Handle → Handle) : Announcement → Announcement
  | .override o => .override { o with fn := f o.fn }
  | x => x

theorem Announcement.key?_renumber (f : Handle → Handle) (x : Announcement) :
    (x.renumber f).key? = x.key? := by
  cases x <;> rfl

section

variable {p q : Program} {f : Handle → Handle} (h : Renumbering p q f) (hp : p.Parsed)
  (hq : q.Parsed)
include h hp hq

/-- The same is announced, if the same names are classes. -/
theorem announcement_renumbered {r s : Registry} (hclass : ∀ c, s.isClass c = r.isClass c)
    {d : Declaration} (hd : Declaration.IsOf d p) :
    announcement q s (d.renumber f) = (announcement p r d).renumber f := by
  have hname : (d.renumber f).name = d.name := rfl
  have hdoc : (d.renumber f).doc = d.doc := rfl
  have hresult : resultOf q r (d.renumber f) = resultOf p r d := by
    unfold resultOf
    rw [hdoc]
    cases d.doc.bind (·.returnType) with
    | some expression => rfl
    | none => exact inferred_renumbered h hp hq hd.below hd.kind
  rw [announcement_congr hclass]
  unfold announcement
  rw [hresult, hname, hdoc]
  cases r.isClass (toString d.name) with
  | true => rfl
  | false =>
    -- what is announced depends on the name, the classes and the comment, and on the function
    -- for its result only
    cases d.name.splitOn .prototype with
    | none => rfl
    | some parts =>
      obtain ⟨owner, member⟩ := parts
      cases hsingle : member.single? with
      | none => simp only [hsingle, Bool.false_eq_true, if_false, Announcement.renumber]
      | some method =>
        simp only [hsingle, Bool.false_eq_true, if_false]
        cases r.isClass (toString owner) with
        | false => rfl
        | true =>
          cases leavesResult d.doc with
          | true => rfl
          | false => rfl

end

/-! ## Programs with the same declarations -/

/-- The declarations and the links that calls ask for are the same but for the numbers of
functions. -/
structure SameDeclared (f : Handle → Handle) (ds ds' : List Declaration)
    (called called' : List (String × String)) : Prop where
  mem_declared : ∀ {d' : Declaration}, d' ∈ ds' ↔ ∃ d ∈ ds, d.renumber f = d'
  mem_called : ∀ {l : String × String}, l ∈ called' ↔ l ∈ called

namespace SameDeclared

variable {f : Handle → Handle} {ds ds' : List Declaration} {called called' : List (String × String)}
  (h : SameDeclared f ds ds' called called')
include h

theorem declaresClass {c : String} : DeclaresClass ds' c ↔ DeclaresClass ds c := by
  unfold DeclaresClass
  simp only [h.mem_declared, exists_exists_and_eq_and]
  rfl

theorem declaresInterface {c : String} : DeclaresInterface ds' c ↔ DeclaresInterface ds c := by
  unfold DeclaresInterface
  simp only [h.mem_declared, exists_exists_and_eq_and]
  rfl

theorem distinct (hd : Distinct ds called) : Distinct ds' called' where
  unique := by
    intro d₁ h₁ d₂ h₂ hname
    obtain ⟨e₁, he₁, rfl⟩ := h.mem_declared.mp h₁
    obtain ⟨e₂, he₂, rfl⟩ := h.mem_declared.mp h₂
    rw [hd.unique e₁ he₁ e₂ he₂ hname]
  linked := fun hc hl hl' =>
    hd.linked (h.declaresClass.mp hc) (h.mem_called.mp hl) (h.mem_called.mp hl')

/-- The same links are asked for. -/
theorem requested (hd : Distinct ds called) {c parent : String} :
    Requested ds' called' c parent ↔ Requested ds called c parent := by
  have hdocumented {l : String × String} : (∃ d ∈ ds', d.documentedLink = some l) ↔
      ∃ d ∈ ds, d.documentedLink = some l := by
    simp only [h.mem_declared, exists_exists_and_eq_and]
    rfl
  have hlink (hc : DeclaresClass ds c) :
      (c, parent) ∈ linksOf ds' called' ↔ (c, parent) ∈ linksOf ds called := by
    rw [(h.distinct hd).mem_linksOf (h.declaresClass.mpr hc), hd.mem_linksOf hc]
    simp only [h.mem_called, hdocumented]
  constructor
  · rintro ⟨hl, hc, hparent, hi, hi'⟩
    have hc := h.declaresClass.mp hc
    exact ⟨(hlink hc).mp hl, hc, h.declaresClass.mp hparent,
      fun hn => hi (h.declaresInterface.mpr hn), fun hn => hi' (h.declaresInterface.mpr hn)⟩
  · rintro ⟨hl, hc, hparent, hi, hi'⟩
    exact ⟨(hlink hc).mpr hl, h.declaresClass.mpr hc, h.declaresClass.mpr hparent,
      fun hn => hi (h.declaresInterface.mp hn), fun hn => hi' (h.declaresInterface.mp hn)⟩

end SameDeclared

/-! ## The same registry -/

section

variable {p q : Program} {f : Handle → Handle} (h : Renumbering p q f) (hp : p.Parsed)
  (hq : q.Parsed) {ds ds' : List Declaration} {called called' : List (String × String)}
  (hds : ∀ d ∈ ds, Declaration.IsOf d p) (hsame : SameDeclared f ds ds' called called')
  (hdistinct : Distinct ds called) {c c' : Typing}
  (hc : ClassesSettled ds called c) (hc' : ClassesSettled ds' called' c') {r s : Registry}
  (hr : r.classes = c.registry.classes) (hs : s.classes = c'.registry.classes)

include hsame hc hc' hr hs in
theorem isClass_agrees (n : String) : s.isClass n = r.isClass n := by
  rw [isClass_of_classes hr, isClass_of_classes hs, Bool.eq_iff_iff, hc.isClass, hc'.isClass,
    hsame.declaresClass]

include hsame hdistinct hc hc' hr hs in
theorem superclass?_agrees (n : String) : s.superclass? n = r.superclass? n := by
  rw [superclass?_of_classes hr, superclass?_of_classes hs]
  apply Option.ext
  intro parent
  rw [hc.requested, hc'.requested, hsame.requested hdistinct]

include hsame hc hc' hr hs in
theorem length_classes_agrees : s.classes.entries.length = r.classes.entries.length := by
  refine Registry.length_classes_eq ?_ ?_ (isClass_agrees hsame hc hc' hr hs)
  · rw [hr]
    exact hc.nodup
  · rw [hs]
    exact hc'.nodup

variable (hsettled : Settled p ds r) (hsettled' : Settled q ds' s)
include h hp hq hds hsame hdistinct hc hc' hr hs hsettled hsettled'

/-- The same methods are declared, and their types are the same: those of methods that override
by what has been said about the classes above. -/
theorem ownMethod?_agrees (n m : String) : s.ownMethod? n m = r.ownMethod? n m := by
  have hclass := isClass_agrees hsame hc hc' hr hs
  have hsuper := superclass?_agrees hsame hdistinct hc hc' hr hs
  have hlength := length_classes_agrees hsame hc hc' hr hs
  have hdepth : ∀ n parent, r.superclass? n = some parent →
      c.ancestry.depth parent < c.ancestry.depth n := fun n parent hparent =>
    hc.depth_lt ((superclass?_of_classes hr n).symm.trans hparent)
  have hannounced {d : Declaration} (hd : d ∈ ds) :
      d.renumber f ∈ ds' ∧ announcement q s (d.renumber f) = (announcement p r d).renumber f :=
    ⟨hsame.mem_declared.mpr ⟨d, hd, rfl⟩, announcement_renumbered h hp hq hclass (hds d hd)⟩
  induction n using (measure c.ancestry.depth).wf.induction generalizing m with
  | h n ih =>
    by_cases hkey : ∃ d ∈ ds, (announcement p r d).key? = some (n, m)
    · obtain ⟨d, hd, hkey⟩ := hkey
      obtain ⟨hd', hx'⟩ := hannounced hd
      cases hx : announcement p r d with
      | nothing => rw [hx] at hkey; cases hkey
      | function => rw [hx] at hkey; cases hkey
      | method c₁ m₁ type =>
        rw [hx] at hkey hx'
        cases hkey
        rw [hsettled.method d hd n m type hx, hsettled'.method _ hd' n m type hx']
      | override o =>
        rw [hx] at hkey hx'
        cases hkey
        have hfn : o.fn = d.fn := fn_of_override? (Announcement.override?_eq_some.mpr hx)
        -- what is overridden is above the class of the method
        have habove : overridden? s { o with fn := f o.fn } = overridden? r o :=
          overridden?_congr (P := fun n => c.ancestry.depth n < c.ancestry.depth o.className)
            hlength (hsuper _) (hdepth _) (fun n _ => hsuper n)
            (fun n parent hn hparent => (hdepth n parent hparent).trans hn) fun n hn => ih n hn _
        have htype : overrideType q s { o with fn := f o.fn } = overrideType p r o := by
          have hinferred : inferred q (f o.fn) = inferred p o.fn := by
            rw [hfn]
            exact inferred_renumbered h hp hq (hds d hd).below (hds d hd).kind
          unfold overrideType
          rw [habove, hinferred]
        rw [hsettled.override d hd o hx, hsettled'.override _ hd' _ hx', htype]
    · rw [hsettled.no_method n m fun d hd hd' => hkey ⟨d, hd, hd'⟩]
      refine hsettled'.no_method n m fun d' hd' hkey' => hkey ?_
      obtain ⟨d, hd, rfl⟩ := hsame.mem_declared.mp hd'
      rw [(hannounced hd).2, Announcement.key?_renumber] at hkey'
      exact ⟨d, hd, hkey'⟩

/-- Programs with the same declarations in another order come to registries that say the same. -/
theorem Settled.agrees : r.Agrees s where
  isClass := isClass_agrees hsame hc hc' hr hs
  superclass? := superclass?_agrees hsame hdistinct hc hc' hr hs
  ownMethod? := ownMethod?_agrees h hp hq hds hsame hdistinct hc hc' hr hs hsettled hsettled'
  findMethod := fun n m =>
    Registry.findMethod_congr (length_classes_agrees hsame hc hc' hr hs)
      (superclass?_agrees hsame hdistinct hc hc' hr hs)
      (fun n => ownMethod?_agrees h hp hq hds hsame hdistinct hc hc' hr hs hsettled hsettled' n m) n
  functions := by
    intro name
    have hannounced {d : Declaration} (hd : d ∈ ds) :
        announcement q s (d.renumber f) = (announcement p r d).renumber f :=
      announcement_renumbered h hp hq (isClass_agrees hsame hc hc' hr hs) (hds d hd)
    by_cases hname : ∃ d ∈ ds, ∃ type, announcement p r d = .function name type
    · obtain ⟨d, hd, type, hx⟩ := hname
      have hx' := hannounced hd
      rw [hx] at hx'
      rw [hsettled.function d hd name type hx,
        hsettled'.function _ (hsame.mem_declared.mpr ⟨d, hd, rfl⟩) name type hx']
    · rw [hsettled.no_function name fun d hd type hx => hname ⟨d, hd, type, hx⟩]
      refine hsettled'.no_function name fun d' hd' type hx' => hname ?_
      obtain ⟨d, hd, rfl⟩ := hsame.mem_declared.mp hd'
      rw [hannounced hd] at hx'
      refine ⟨d, hd, type, ?_⟩
      cases hx : announcement p r d with
      | function => rw [hx] at hx'; exact hx'
      | nothing => rw [hx] at hx'; cases hx'
      | method => rw [hx] at hx'; cases hx'
      | override => rw [hx] at hx'; cases hx'

end

end Typing

end SuperForward
