/-
  Names as keys.

  What is declared is looked up by how names are written: a class or a function by its name, and
  a method by the name of its class and its own. Candidates are looked up by the segments of
  their names. In programs that are read from scripts the two agree: no segment of a name that a
  node spells has a dot in it, so that the name can be read back from how it is written.
-/
import SuperForward.Proofs.Program.Characters
import SuperForward.Proofs.Program.Documenting
import SuperForward.Proofs.Program.Naming
import SuperForward.Proofs.Splitting

namespace SuperForward

open SuperForward.Program (root)
open SuperForward.QualifiedName (parse?)
open SuperForward.Script (IsSegment)

namespace QualifiedName

/-- Segments without dots can be read back. -/
theorem parse?_toString {q : QualifiedName} (h : ∀ name ∈ q.names, '.' ∉ name.toList) :
    parse? (toString q) = some q := by
  unfold parse?
  rw [segmentsOf_toString h]
  exact ofNames?_names q

/-- The name is that of a method of a class, as methods are declared. -/
def IsMethodOf (q : QualifiedName) (className method : String) : Prop :=
  ∃ owner member, q.splitOn .prototype = some (owner, member) ∧ toString owner = className ∧
    member.single? = some method

/-- How the name of a method is written follows from its class and the method. -/
theorem IsMethodOf.toString_eq {q : QualifiedName} {className method : String}
    (h : q.IsMethodOf className method) : toString q = className ++ ".prototype." ++ method := by
  obtain ⟨owner, member, hsplit, rfl, hmethod⟩ := h
  exact toString_of_splitOn_prototype hsplit hmethod

end QualifiedName

namespace Program

/-- A node of the program spells the name, or a function is bound to it. -/
def HasName (p : Program) (q : QualifiedName) : Prop :=
  (∃ n, p.qualifiedName n = .ok (some q)) ∨ ∃ fn, p.functionName fn = .ok (some q)

section

variable {p : Program} {q : QualifiedName}

theorem lt_size_of_qualifiedName {n : Handle} (h : p.qualifiedName n = .ok (some q)) :
    n < p.size := by
  unfold qualifiedName at h
  obtain ⟨names, hnames, -⟩ := except_bind_eq_ok.mp h
  unfold segmentsWithin at hnames
  obtain ⟨node, hnode, -⟩ := except_bind_eq_ok.mp hnames
  exact lt_size_iff.mpr ⟨node, node_eq_ok_iff.mp hnode⟩

/-- A name node spells its text. -/
theorem qualifiedName_of_name {n : Handle} {node : Node} (hnode : p.node n = .ok node)
    (hkind : node.kind = .name) (htext : node.text ≠ "") :
    p.qualifiedName n = (nameOf [node.text]).map some := by
  unfold qualifiedName segmentsWithin
  simp only [hnode, hkind, htext, except_ok_bind, beq_iff_eq, if_false, except_pure]
  cases nameOf [node.text] <;> rfl

/-- The name that a function carries itself is spelled by the node of that name. -/
theorem exists_qualifiedName_of_ownName {fn : Handle} (h : p.ownName fn = .ok (some q)) :
    ∃ n, p.qualifiedName n = .ok (some q) := by
  unfold ownName at h
  obtain ⟨first, -, h⟩ := except_bind_eq_ok.mp h
  cases first with
  | none => cases h
  | some n =>
    obtain ⟨node, hnode, h⟩ := except_bind_eq_ok.mp h
    split at h
    · next hname =>
      rw [Bool.and_eq_true, beq_iff_eq, bne_iff_ne] at hname
      obtain ⟨name, hof, h⟩ := except_bind_eq_ok.mp h
      cases h
      exact ⟨n, by rw [qualifiedName_of_name hnode hname.1 hname.2, hof]; rfl⟩
    · cases h

/-- The name that a function is bound to is spelled by a node. -/
theorem exists_qualifiedName_of_functionName {fn : Handle}
    (h : p.functionName fn = .ok (some q)) : ∃ n, p.qualifiedName n = .ok (some q) := by
  unfold functionName at h
  obtain ⟨above, -, h⟩ := except_bind_eq_ok.mp h
  cases above with
  | none => exact exists_qualifiedName_of_ownName h
  | some above =>
    obtain ⟨node, -, h⟩ := except_bind_eq_ok.mp h
    -- the target of an assignment, the variable above the function, or its own name
    split at h
    · unfold qualifiedNameOf at h
      obtain ⟨target, -, h⟩ := except_bind_eq_ok.mp h
      exact ⟨target, h⟩
    split at h
    · exact ⟨above, h⟩
    · exact exists_qualifiedName_of_ownName h

theorem HasName.exists_qualifiedName (h : p.HasName q) : ∃ n, p.qualifiedName n = .ok (some q) :=
  h.elim id fun ⟨_, hfn⟩ => exists_qualifiedName_of_functionName hfn

/-- The segments of the names in a program that is read from scripts have no dots in them. -/
theorem HasName.noDots {sources : List Source} (h : (ofSources sources).1.HasName q) :
    ∀ name ∈ q.names, '.' ∉ name.toList := by
  obtain ⟨n, hn⟩ := h.exists_qualifiedName
  have hp := parsed_untyped sources
  have hbelow := below_root_ofSources (lt_size_of_qualifiedName hn)
  exact fun name hname => (hp.isSegment_of_spells (hp.spells_of_qualifiedName hbelow hn) hbelow
    name hname).2

end

/-- Splitting a name at a marker undoes joining two names around it, and it makes names of their
own of the two halves. The names in programs that are read from scripts can be read back from
how they are written; so two of them are one name if they are written alike, and also if they
are names of one method of one class. -/
theorem splits_and_reads_back :
    (∀ (q left right : QualifiedName) (access : Access) (marker : String),
      access.marker? = some marker →
        (q.splitOn access = some (left, right) ↔ q.JoinedAround marker left right) ∧
        (q.splitOn access = some (left, right) →
          left.accesses = q.accesses.take left.length ∧
            right.accesses = .root :: q.accesses.drop (left.length + 2))) ∧
      ∀ (sources sources' : List Source) (q q' : QualifiedName),
        (ofSources sources).1.HasName q → (ofSources sources').1.HasName q' →
          parse? (toString q) = some q ∧ (toString q = toString q' ↔ q = q') ∧
          ∀ className method, q.IsMethodOf className method → q'.IsMethodOf className method →
            q = q' := by
  refine ⟨fun q left right access marker h =>
    ⟨QualifiedName.splitOn_iff_joinedAround h, QualifiedName.accesses_of_splitOn⟩, ?_⟩
  intro sources sources' q q' hq hq'
  have hread := QualifiedName.parse?_toString hq.noDots
  have hread' := QualifiedName.parse?_toString hq'.noDots
  -- what is written alike is read back as one name
  have hone (h : toString q = toString q') : q = q' := by
    rw [h, hread'] at hread
    exact (Option.some.inj hread).symm
  refine ⟨hread, ⟨hone, congrArg toString⟩, fun className method h h' => hone ?_⟩
  rw [h.toString_eq, h'.toString_eq]

/-- A name that begins with one marker and has the other one inside, before the first again. -/
def markedName : QualifiedName :=
  ⟨["prototype", "a", "superClass_", "prototype", "b"], by decide, by decide⟩

/-- A script with a method that is called as a reserved word. -/
def reservedScript : Source := ⟨"a.js", "A.prototype.delete = function() \x7b\x7d;"⟩

/-- A script that reads that method. -/
def readingScript : Source := ⟨"b.js", "x = A.prototype.delete;"⟩

/-- The name `A.prototype.delete`. -/
def reservedName : QualifiedName := ⟨["A", "prototype", "delete"], by decide, by decide⟩

theorem hasName_reservedScript : (ofSources [reservedScript]).1.HasName reservedName := by
  have hname : ((ofSources [reservedScript]).1.functionName 7).toOption
      = some (some reservedName) := by
    rw [reservedScript, ofSources_one rfl]
    decide +kernel
  exact .inr ⟨7, toOption_eq_some.mp hname⟩

theorem hasName_readingScript : (ofSources [readingScript]).1.HasName reservedName := by
  have hname : ((ofSources [readingScript]).1.qualifiedName 4).toOption
      = some (some reservedName) := by
    rw [readingScript, ofSources_one rfl]
    decide +kernel
  exact .inl ⟨4, toOption_eq_some.mp hname⟩

/-- The name is split at the marker inside, and the marker behind it becomes a root; the method
has one name in both scripts. -/
theorem splits_and_reads_back_reservedScript :
    (∃ left right, Access.superclass.marker? = some superclassMarker ∧
        markedName.splitOn .superclass = some (left, right) ∧
        markedName.JoinedAround superclassMarker left right ∧
        left.accesses = markedName.accesses.take left.length ∧
        right.accesses = .root :: markedName.accesses.drop (left.length + 2)) ∧
      (ofSources [reservedScript]).1.HasName reservedName ∧
      (ofSources [readingScript]).1.HasName reservedName ∧
      reservedName.IsMethodOf "A" "delete" ∧
      parse? (toString reservedName) = some reservedName := by
  obtain ⟨hsplits, hkeys⟩ := splits_and_reads_back
  let left : QualifiedName := ⟨["prototype", "a"], by decide, by decide⟩
  let right : QualifiedName := ⟨["prototype", "b"], by decide, by decide⟩
  have hsplit : markedName.splitOn .superclass = some (left, right) := by decide
  obtain ⟨hiff, haccesses⟩ := hsplits markedName left right .superclass superclassMarker rfl
  obtain ⟨hread, -, -⟩ := hkeys _ _ _ _ hasName_reservedScript hasName_readingScript
  exact ⟨⟨left, right, rfl, hsplit, hiff.mp hsplit, haccesses hsplit⟩, hasName_reservedScript,
    hasName_readingScript, ⟨⟨["A"], by decide, by decide⟩, ⟨["delete"], by decide, by decide⟩,
      by decide, by decide, by decide⟩, hread⟩

end Program

end SuperForward
