/-
  Dotted names and their parts.

  A name is recovered from how it is written, as long as no segment contains a dot. Splitting a
  name at a marker is said by positions: it succeeds exactly if one interior segment is reached
  by the marker, and it gives what stands before and after that segment. So it undoes joining two
  names around the marker, as long as no other interior segment is the marker.
-/
import SuperForward.Types.Callee
import Mathlib.Data.List.Basic
import Mathlib.Data.List.Nodup
import Mathlib.Data.List.Range

namespace SuperForward

/-! ## Pieces of a text -/

namespace Text

variable {isMark : Char → Bool}

theorem pieces_of_free {cs : List Char} (h : ∀ c ∈ cs, isMark c = false) :
    pieces isMark cs = [cs] := by
  induction cs with
  | nil => rfl
  | cons c rest ih =>
    have hc := h c (List.mem_cons_self ..)
    rw [pieces, ih fun d hd => h d (List.mem_cons_of_mem _ hd), hc]
    rfl

theorem pieces_append_mark {c : Char} (hc : isMark c = true) (as bs : List Char) :
    pieces isMark (as ++ c :: bs) = pieces isMark as ++ pieces isMark bs := by
  induction as with
  | nil => simp [pieces, hc]
  | cons a as ih =>
    rw [List.cons_append, pieces, pieces, ih]
    cases ha : isMark a with
    | true => rfl
    | false =>
      obtain ⟨first, others, hpieces⟩ := List.exists_cons_of_ne_nil (pieces_ne_nil isMark as)
      simp only [hpieces, List.cons_append]
      rfl

theorem piecesAt_of_free {mark : Char} {s : String} (h : mark ∉ s.toList) :
    piecesAt mark s = [s] := by
  unfold piecesAt
  rw [pieces_of_free]
  · simp
  · intro c hc
    rw [beq_eq_false_iff_ne]
    rintro rfl
    exact h hc

theorem piecesAt_append {mark : Char} (s t : String) :
    piecesAt mark (s ++ String.singleton mark ++ t) = piecesAt mark s ++ piecesAt mark t := by
  unfold piecesAt
  rw [String.toList_append, String.toList_append, String.toList_singleton, List.append_assoc,
    List.singleton_append, pieces_append_mark (by simp), List.map_append]

theorem piecesAt_ne_nil (mark : Char) (s : String) : piecesAt mark s ≠ [] := by
  unfold piecesAt
  rw [Ne, List.map_eq_nil_iff]
  exact pieces_ne_nil _ _

theorem intercalate_pieces (mark : Char) (cs : List Char) :
    [mark].intercalate (pieces (· == mark) cs) = cs := by
  induction cs with
  | nil => rfl
  | cons c rest ih =>
    obtain ⟨first, others, hpieces⟩ := List.exists_cons_of_ne_nil (pieces_ne_nil (· == mark) rest)
    rw [pieces]
    rw [hpieces] at ih ⊢
    by_cases hc : c = mark
    · rw [if_pos (by simpa using hc), List.intercalate_cons_cons, ih, hc]
      rfl
    · rw [if_neg (by simpa using hc), List.modifyHead_cons, List.intercalate_cons_cons_left, ih]

/-- The pieces of a text make up the text. -/
theorem intercalate_piecesAt (s : String) : ".".intercalate (piecesAt '.' s) = s := by
  rw [← String.toList_inj, String.toList_intercalate]
  unfold piecesAt
  rw [List.map_map]
  have hid : String.toList ∘ String.ofList = id := by
    funext cs
    simp
  rw [hid, List.map_id]
  exact intercalate_pieces '.' s.toList

end Text

/-- The text of a segment that is reached so, where only one text is. -/
def Access.marker? : Access → Option String
  | .prototype => some prototypeMarker
  | .superclass => some superclassMarker
  | .root | .member => none

namespace QualifiedName

theorem ext_names {a b : QualifiedName} (h : a.names = b.names) : a = b := by
  obtain ⟨_, _, _⟩ := a
  obtain ⟨_, _, _⟩ := b
  cases h
  rfl

/-! ## How a name is written -/

/-- The segments of a name can be told apart where it is written. -/
theorem segmentsOf_toString {q : QualifiedName} (h : ∀ name ∈ q.names, '.' ∉ name.toList) :
    segmentsOf (toString q) = q.names := by
  have key : ∀ names : List String, names ≠ [] → (∀ name ∈ names, '.' ∉ name.toList) →
      segmentsOf (".".intercalate names) = names := by
    intro names
    induction names with
    | nil => exact fun h _ => absurd rfl h
    | cons name names ih =>
      intro _ hfree
      by_cases hnil : names = []
      · subst hnil
        rw [String.intercalate_singleton]
        exact Text.piecesAt_of_free (hfree name (List.mem_cons_self ..))
      · rw [String.intercalate_cons_of_ne_nil hnil]
        unfold segmentsOf at ih ⊢
        rw [show "." = String.singleton '.' from rfl] at ih ⊢
        rw [Text.piecesAt_append, ih hnil fun n hn => hfree n (List.mem_cons_of_mem _ hn),
          Text.piecesAt_of_free (hfree name (List.mem_cons_self ..))]
        rfl
  exact key q.names q.names_ne_nil h

/-- Where a method of a class is written, the name ends with the prototype and the method. -/
theorem names_of_toString {q : QualifiedName} (h : ∀ name ∈ q.names, '.' ∉ name.toList)
    {className method : String} (hmethod : '.' ∉ method.toList)
    (hq : toString q = className ++ ".prototype." ++ method) :
    ∃ owner, owner ≠ [] ∧ q.names = owner ++ [prototypeMarker, method] ∧
      ".".intercalate owner = className := by
  refine ⟨segmentsOf className, Text.piecesAt_ne_nil _ _, ?_, Text.intercalate_piecesAt _⟩
  have htext : className ++ ".prototype." ++ method
      = className ++ String.singleton '.' ++ ("prototype" ++ String.singleton '.' ++ method) := by
    simp only [String.append_assoc]
    rfl
  rw [← segmentsOf_toString h, hq, htext]
  unfold segmentsOf
  rw [Text.piecesAt_append, Text.piecesAt_append, Text.piecesAt_of_free hmethod,
    Text.piecesAt_of_free (s := "prototype") (by decide)]
  rfl

/-- Names are written alike that are put together alike. -/
theorem toString_append {q owner : QualifiedName} {rest : List String} (hrest : rest ≠ [])
    (hq : q.names = owner.names ++ rest) :
    toString q = toString owner ++ "." ++ ".".intercalate rest := by
  show ".".intercalate q.names = ".".intercalate owner.names ++ "." ++ ".".intercalate rest
  rw [hq, String.intercalate_append_of_ne_nil owner.names_ne_nil hrest]

/-! ## Splitting -/

theorem prototype_of_access {name : String} (h : Access.ofSegment name = .prototype) :
    name = prototypeMarker := by
  unfold Access.ofSegment at h
  split at h
  · next hname => exact beq_iff_eq.mp hname
  · split at h <;> cases h

theorem superclass_of_access {name : String} (h : Access.ofSegment name = .superclass) :
    name = superclassMarker := by
  unfold Access.ofSegment at h
  split at h
  · cases h
  · split at h
    · next hname => exact beq_iff_eq.mp hname
    · cases h

/-- A segment stands strictly between the first and the last one and is reached so. -/
def Interior (names : List String) (access : Access) (i : Nat) : Prop :=
  0 < i ∧ i + 1 < names.length ∧ ∃ name, names[i]? = some name ∧ Access.ofSegment name = access

theorem mem_interiorPositions_iff {q : QualifiedName} {access : Access} {i : Nat} :
    i ∈ q.interiorPositions access ↔ Interior q.names access i := by
  unfold interiorPositions Interior length
  rw [List.mem_filter, List.mem_range]
  simp only [Bool.and_eq_true, decide_eq_true_eq, beq_iff_eq]
  have hget (hi : 0 < i) : q.accesses[i]? = (q.names[i]?).map Access.ofSegment := by
    obtain ⟨i, rfl⟩ := Nat.exists_eq_succ_of_ne_zero (Nat.ne_of_gt hi)
    unfold accesses
    rw [Nat.succ_eq_add_one, List.getElem?_cons_succ, List.getElem?_map, List.getElem?_tail]
  constructor
  · rintro ⟨-, ⟨haccess, hi⟩, hlt⟩
    rw [hget hi, Option.map_eq_some_iff] at haccess
    exact ⟨hi, hlt, haccess⟩
  · rintro ⟨hi, hlt, hname⟩
    refine ⟨by omega, ⟨?_, hi⟩, hlt⟩
    rw [hget hi, Option.map_eq_some_iff]
    exact hname

/-- Splitting succeeds where there is exactly one place to split at. -/
theorem splitOn_eq_some_iff {q left right : QualifiedName} {access : Access} :
    q.splitOn access = some (left, right) ↔
      ∃ i, (∀ j, Interior q.names access j ↔ j = i) ∧ q.names.take i = left.names ∧
        q.names.drop (i + 1) = right.names := by
  have hnodup : (q.interiorPositions access).Nodup := List.nodup_range.filter _
  have hsingle (i : Nat) :
      q.interiorPositions access = [i] ↔ ∀ j, Interior q.names access j ↔ j = i := by
    rw [← List.perm_singleton, List.perm_ext_iff_of_nodup hnodup (List.nodup_singleton i)]
    simp only [mem_interiorPositions_iff, List.mem_singleton]
  unfold splitOn
  constructor
  · intro h
    split at h
    · next i hi =>
      obtain ⟨l, hl, h⟩ := Option.bind_eq_some_iff.mp h
      obtain ⟨r, hr, h⟩ := Option.bind_eq_some_iff.mp h
      cases h
      exact ⟨i, (hsingle i).mp hi, ofNames?_eq_some_iff.mp hl, ofNames?_eq_some_iff.mp hr⟩
    · cases h
  · rintro ⟨i, hi, hl, hr⟩
    rw [(hsingle i).mpr hi]
    simp only [ofNames?_eq_some_iff.mpr hl, ofNames?_eq_some_iff.mpr hr]
    rfl

section

variable {q left right : QualifiedName} {access : Access}

theorem names_of_splitOn (h : q.splitOn access = some (left, right)) :
    ∃ name, q.names = left.names ++ name :: right.names ∧ Access.ofSegment name = access := by
  obtain ⟨i, hi, hleft, hright⟩ := splitOn_eq_some_iff.mp h
  obtain ⟨-, hlt, name, hname, haccess⟩ := (hi i).mpr rfl
  refine ⟨name, ?_, haccess⟩
  have hi' : i < q.names.length := by omega
  rw [List.getElem?_eq_getElem hi'] at hname
  rw [← hleft, ← hright, ← Option.some.inj hname, ← List.drop_eq_getElem_cons hi',
    List.take_append_drop]

theorem names_of_single? {name : String} (h : q.single? = some name) : q.names = [name] := by
  unfold single? at h
  split at h
  · next hnames =>
    cases h
    exact hnames
  · cases h

/-- How the name of a method is written. -/
theorem toString_of_splitOn_prototype {method : String}
    (h : q.splitOn .prototype = some (left, right)) (hmethod : right.single? = some method) :
    toString q = toString left ++ ".prototype." ++ method := by
  obtain ⟨marker, hnames, hmarker⟩ := names_of_splitOn h
  rw [prototype_of_access hmarker, names_of_single? hmethod] at hnames
  have hmarked : ".prototype." = "." ++ prototypeMarker ++ "." := by decide
  rw [toString_append (by simp) hnames, hmarked]
  simp [String.append_assoc]

theorem interior_of_names {names owner rest : List String} {name : String}
    (hnames : names = owner ++ name :: rest) (howner : owner ≠ []) (hrest : rest ≠ [])
    (hname : Access.ofSegment name = access) : Interior names access owner.length := by
  subst hnames
  have ho := List.length_pos_iff.mpr howner
  have hr := List.length_pos_iff.mpr hrest
  refine ⟨ho, ?_, name, ?_, hname⟩
  · rw [List.length_append, List.length_cons]
    omega
  · rw [List.getElem?_append_right (le_refl _), Nat.sub_self]
    rfl

/-- A name can be split in one way only. -/
theorem eq_of_splitOn {owner rest : List String} {name : String}
    (h : q.splitOn access = some (left, right)) (hnames : q.names = owner ++ name :: rest)
    (howner : owner ≠ []) (hrest : rest ≠ []) (hname : Access.ofSegment name = access) :
    left.names = owner ∧ right.names = rest := by
  obtain ⟨i, hi, hleft, hright⟩ := splitOn_eq_some_iff.mp h
  have hlength := (hi _).mp (interior_of_names hnames howner hrest hname)
  subst hlength
  rw [← hleft, ← hright, hnames]
  refine ⟨List.take_left' rfl, ?_⟩
  rw [List.drop_append, Nat.sub_eq_of_eq_add (Nat.add_comm _ _)]
  simp

/-- Where a method of a class is written, the name is split into the class and the method, unless
the name of the class has a place to split at as well. -/
theorem splitOn_prototype_of_toString (h : ∀ name ∈ q.names, '.' ∉ name.toList)
    {className method : String} (hmethod : '.' ∉ method.toList)
    (hclass : prototypeMarker ∉ (segmentsOf className).tail)
    (hq : toString q = className ++ ".prototype." ++ method) :
    ∃ owner member, q.splitOn .prototype = some (owner, member) ∧ toString owner = className ∧
      member.single? = some method := by
  obtain ⟨names, hne, hnames, hwritten⟩ := names_of_toString h hmethod hq
  have hmem : ∀ name ∈ names, name ∈ q.names := fun name hname => by
    rw [hnames]
    exact List.mem_append_left _ hname
  let owner : QualifiedName := ⟨names, hne, fun name hname => q.nonempty name (hmem name hname)⟩
  let member : QualifiedName := ⟨[method], by simp, fun name hname => q.nonempty name (by
    rw [hnames, List.mem_singleton.mp hname]
    simp)⟩
  have hsegments : segmentsOf className = names := by
    rw [← hwritten]
    exact segmentsOf_toString (q := owner) fun name hname => h name (hmem name hname)
  rw [hsegments] at hclass
  refine ⟨owner, member, ?_, hwritten, rfl⟩
  refine splitOn_eq_some_iff.mpr ⟨names.length, fun j => ⟨?_, ?_⟩, ?_, ?_⟩
  · rintro ⟨hpos, hlt, name, hname, haccess⟩
    rw [hnames] at hlt hname
    rw [List.length_append, List.length_cons, List.length_singleton] at hlt
    -- an earlier place to split at would lie within the name of the class
    by_contra hj
    have hj : j < names.length := by omega
    rw [List.getElem?_append_left hj] at hname
    refine hclass (List.mem_iff_getElem?.mpr ⟨j - 1, ?_⟩)
    rw [List.getElem?_tail, Nat.sub_add_cancel hpos, hname, prototype_of_access haccess]
  · rintro rfl
    exact interior_of_names hnames hne (by simp) rfl
  · rw [hnames]
    exact List.take_left' rfl
  · rw [hnames, List.drop_append, Nat.sub_eq_of_eq_add (Nat.add_comm _ _)]
    simp [member]

/-- Without its last segment a name is split where it was, if something is left after that
place. -/
theorem splitOn_of_append {base rest : QualifiedName} {last : String}
    (hq : q.names = base.names ++ [last]) (h : q.splitOn access = some (left, right))
    (hright : right.names = rest.names ++ [last]) : base.splitOn access = some (left, rest) := by
  obtain ⟨name, hnames, hname⟩ := names_of_splitOn h
  obtain ⟨i, hi, hleft, -⟩ := splitOn_eq_some_iff.mp h
  have hbase : base.names = left.names ++ name :: rest.names := by
    rw [hq, hright, ← List.cons_append, ← List.append_assoc] at hnames
    exact List.append_cancel_right hnames
  have hplace := interior_of_names hbase left.names_ne_nil rest.names_ne_nil hname
  rw [splitOn_eq_some_iff]
  refine ⟨left.names.length, fun j => ⟨?_, ?_⟩, ?_, ?_⟩
  · -- a place in the shorter name is one in the longer name
    rintro ⟨hpos, hlt, n, hn, hn'⟩
    have hlonger {k : Nat} {n : String} (hk : base.names[k]? = some n) : q.names[k]? = some n := by
      rw [hq, List.getElem?_append_left (List.getElem?_eq_some_iff.mp hk).1]
      exact hk
    have hlength : q.names.length = base.names.length + 1 := by
      rw [hq, List.length_append, List.length_singleton]
    obtain ⟨-, hlt', n', hn₁, hn₂⟩ := hplace
    have hj := (hi j).mp ⟨hpos, by omega, n, hlonger hn, hn'⟩
    have hl := (hi left.names.length).mp
      ⟨List.length_pos_iff.mpr left.names_ne_nil, by omega, n', hlonger hn₁, hn₂⟩
    rw [hj, hl]
  · rintro rfl
    exact hplace
  · rw [hbase]
    exact List.take_left' rfl
  · rw [hbase, List.drop_append, Nat.sub_eq_of_eq_add (Nat.add_comm _ _)]
    simp

end

/-! ## Joining -/

/-- The name is two names joined around a marker, and nowhere else between its first and its last
segment stands the marker. -/
structure JoinedAround (q : QualifiedName) (marker : String) (left right : QualifiedName) :
    Prop where
  names : q.names = left.names ++ [marker] ++ right.names
  only : ∀ i, 0 < i → i + 1 < q.names.length → q.names[i]? = some marker →
    i = left.names.length

section

variable {q left right : QualifiedName} {access : Access} {marker : String}

theorem ofSegment_eq_iff (h : access.marker? = some marker) {name : String} :
    Access.ofSegment name = access ↔ name = marker := by
  cases access with
  | root => cases h
  | member => cases h
  | prototype =>
    cases h
    exact ⟨prototype_of_access, fun h => h ▸ rfl⟩
  | superclass =>
    cases h
    exact ⟨superclass_of_access, fun h => h ▸ rfl⟩

/-- Splitting undoes joining. -/
theorem splitOn_iff_joinedAround (h : access.marker? = some marker) :
    q.splitOn access = some (left, right) ↔ q.JoinedAround marker left right := by
  constructor
  · intro hsplit
    obtain ⟨name, hnames, hname⟩ := names_of_splitOn hsplit
    obtain ⟨j, hj, -, -⟩ := splitOn_eq_some_iff.mp hsplit
    have hplace : left.names.length = j :=
      (hj _).mp (interior_of_names hnames left.names_ne_nil right.names_ne_nil hname)
    rw [(ofSegment_eq_iff h).mp hname] at hnames
    refine ⟨by rw [hnames, List.append_assoc, List.singleton_append], fun i hpos hlt hi => ?_⟩
    rw [hplace]
    exact (hj i).mp ⟨hpos, hlt, marker, hi, (ofSegment_eq_iff h).mpr rfl⟩
  · rintro ⟨hnames, honly⟩
    rw [List.append_assoc, List.singleton_append] at hnames
    refine splitOn_eq_some_iff.mpr ⟨left.names.length, fun j => ⟨?_, ?_⟩, ?_, ?_⟩
    · rintro ⟨hpos, hlt, name, hname, haccess⟩
      rw [(ofSegment_eq_iff h).mp haccess] at hname
      exact honly j hpos hlt hname
    · rintro rfl
      exact interior_of_names hnames left.names_ne_nil right.names_ne_nil
        ((ofSegment_eq_iff h).mpr rfl)
    · rw [hnames]
      exact List.take_left' rfl
    · rw [hnames, List.drop_append, Nat.sub_eq_of_eq_add (Nat.add_comm _ _)]
      simp

/-- The halves of a name are reached as names of their own: the first as in the whole name, and
the second from a root, whatever its first segment is. -/
theorem accesses_of_splitOn (h : q.splitOn access = some (left, right)) :
    left.accesses = q.accesses.take left.length ∧
      right.accesses = .root :: q.accesses.drop (left.length + 2) := by
  obtain ⟨name, hnames, -⟩ := names_of_splitOn h
  obtain ⟨first, ls, hleft⟩ := List.exists_cons_of_ne_nil left.names_ne_nil
  obtain ⟨root, rs, hright⟩ := List.exists_cons_of_ne_nil right.names_ne_nil
  rw [hleft, hright] at hnames
  unfold accesses length
  rw [hnames, hleft, hright]
  simp only [List.cons_append, List.tail_cons, List.map_append, List.map_cons, List.length_cons,
    List.take_succ_cons, List.drop_succ_cons]
  constructor
  · rw [List.take_left' (List.length_map _)]
  · rw [List.drop_append, List.length_map, Nat.add_sub_cancel_left,
      List.drop_eq_nil_of_le (by simp), List.nil_append]
    rfl

end

end QualifiedName

end SuperForward
