/-
  Searching for a method.

  Any declared class may be made the superclass of another, so the way up from a class may run
  into a circle or begin on one. The line of a class is its way up to the end, or up to the
  first class that would come again; every class has exactly one line. A search remembers the
  classes that it has passed and stops where there is no class left or one comes again. It ends
  from every class and in every registry, and it finds what the first class of the line declares
  that declares the method. What a class declares itself is what the last call says that declares
  the method on it, whatever other calls there were.
-/
import SuperForward.Proofs.Entries
import SuperForward.Proofs.Program.Circles
import SuperForward.Proofs.Types.Declaring
import Mathlib.Data.List.Basic
import Mathlib.Data.List.Chain
import Mathlib.Data.List.Perm.Subperm

namespace SuperForward.Registry

open SuperForward.Program (Turn Ends)

/-! ## What a class declares itself -/

/-- A call that changes what a registry says of classes and methods. -/
inductive Call where
  | declareClass (name : String)
  | setSuperclass (name parent : String)
  | declareMethod (owner method : String) (type : Option JsType)

/-- The registry after a call. A superclass that is refused leaves it as it is. -/
def run (r : Registry) : Call → Registry
  | .declareClass name => r.declareClass name
  | .setSuperclass name parent => (r.setSuperclass name parent).toOption.getD r
  | .declareMethod owner method type => r.declareMethod owner method type

/-- What a call declares of a method on a class, which may be no type; none if it declares nothing
of it. -/
def Call.declares? (c m : String) : Call → Option (Option JsType)
  | .declareMethod owner method type => if (owner, method) = (c, m) then some type else none
  | .declareClass _ | .setSuperclass _ _ => none

theorem ownMethod?_run (r : Registry) (call : Call) (c m : String) :
    (r.run call).ownMethod? c m = (call.declares? c m).getD (r.ownMethod? c m) := by
  cases call with
  | declareClass name => exact ownMethod?_declareClass
  | setSuperclass name parent =>
    rw [run, setSuperclass]
    split
    · rfl
    · split <;> rfl
  | declareMethod owner method type =>
    rw [run, ownMethod?_declareMethod, Call.declares?]
    split <;> rfl

/-- The last call that declares a method on a class says what the class declares. -/
theorem ownMethod?_foldl_run (r : Registry) (calls : List Call) (c m : String) :
    (calls.foldl run r).ownMethod? c m
      = (calls.reverse.findSome? (Call.declares? c m)).getD (r.ownMethod? c m) := by
  induction calls using List.reverseRecOn with
  | nil => rfl
  | append_singleton calls call ih =>
    rw [List.foldl_concat, ownMethod?_run, ih, List.reverse_concat, List.findSome?_cons]
    cases call.declares? c m <;> rfl

/-! ## The line of a class -/

/-- The classes are a class, its superclass, the superclass of that one, and so on, none of them
twice. -/
structure Way (r : Registry) (c : String) (way : List String) : Prop where
  head : way.head? = some c
  linked : way.IsChain fun d parent => r.superclass? d = some parent
  nodup : way.Nodup

/-- The way up from a class that is cut at its end or at its first repetition: the last class
has no superclass, or has one that was passed. -/
structure Line (r : Registry) (c : String) (line : List String) : Prop extends Way r c line where
  cut : ∀ last ∈ line.getLast?, ∀ parent, r.superclass? last = some parent → parent ∈ line

section Lines

variable {r : Registry} {c d parent : String} {way line : List String}

theorem way_singleton (r : Registry) (c : String) : r.Way c [c] :=
  ⟨rfl, .singleton c, List.nodup_singleton c⟩

theorem Way.ne_nil (h : r.Way c way) : way ≠ [] := by
  rintro rfl
  cases h.head

/-- The first classes of a way are a way. -/
theorem Way.of_append {below above : List String} (h : r.Way c (below ++ above))
    (hne : below ≠ []) : r.Way c below where
  head := by
    have hhead := h.head
    rwa [List.head?_append_of_ne_nil _ hne] at hhead
  linked := (List.isChain_append.mp h.linked).1
  nodup := h.nodup.sublist (List.sublist_append_left _ _)

/-- A class with a superclass is declared. -/
theorem mem_keys_of_superclass? (h : r.superclass? c = some parent) : c ∈ r.classes.keys := by
  unfold superclass? at h
  cases hget : r.classes.get? c with
  | none =>
    rw [hget] at h
    cases h
  | some parent? =>
    exact List.mem_map.mpr ⟨(c, parent?), OrderedMap.mem_of_lookup hget, rfl⟩

/-- Every class on a way but the last has a superclass. -/
theorem exists_superclass?_of_mem_dropLast
    (hlinked : way.IsChain fun d parent => r.superclass? d = some parent)
    (hd : d ∈ way.dropLast) : ∃ parent, r.superclass? d = some parent := by
  induction hlinked with
  | nil => cases hd
  | singleton c => cases hd
  | @cons_cons c parent above hlink _ ih =>
    rcases List.mem_cons.mp hd with rfl | hd
    · exact ⟨parent, hlink⟩
    · exact ih hd

/-- A way passes each declared class once, and may end at one that is not declared. -/
theorem Way.length_le (h : r.Way c way) : way.length ≤ r.classes.entries.length + 1 := by
  have hsubset : way.dropLast ⊆ r.classes.keys := by
    intro d hd
    obtain ⟨parent, hparent⟩ := exists_superclass?_of_mem_dropLast h.linked hd
    exact mem_keys_of_superclass? hparent
  have hnodup : way.dropLast.Nodup := h.nodup.sublist (List.dropLast_sublist way)
  have hle := (hnodup.subperm hsubset).length_le
  rw [List.length_dropLast] at hle
  unfold OrderedMap.keys at hle
  rw [List.length_map] at hle
  omega

/-- A way goes on to the superclass of its last class, unless that was passed. -/
theorem Way.append (h : r.Way c way) (hlast : way.getLast? = some d)
    (hparent : r.superclass? d = some parent) (hnew : parent ∉ way) :
    r.Way c (way ++ [parent]) where
  head := by rw [List.head?_append, h.head, Option.some_or]
  linked := by
    refine List.isChain_append.mpr ⟨h.linked, .singleton parent, fun x hx y hy => ?_⟩
    rw [hlast] at hx
    cases hx
    cases hy
    exact hparent
  nodup := List.nodup_append'.mpr ⟨h.nodup, List.nodup_singleton parent, by simpa using hnew⟩

/-- Every way can be gone on to the end. -/
theorem Way.exists_line (h : r.Way c way) : ∃ line, r.Line c line := by
  -- the classes that a way can still pass become fewer
  induction hleft : r.classes.entries.length + 1 - way.length generalizing way with
  | zero =>
    refine ⟨way, h, fun last hlast parent hparent => ?_⟩
    by_contra hnew
    have hle := (h.append hlast hparent hnew).length_le
    rw [List.length_append, List.length_singleton] at hle
    omega
  | succ left ih =>
    by_cases hcut : ∀ last ∈ way.getLast?, ∀ parent, r.superclass? last = some parent →
        parent ∈ way
    · exact ⟨way, h, hcut⟩
    · push Not at hcut
      obtain ⟨last, hlast, parent, hparent, hnew⟩ := hcut
      refine ih (h.append hlast hparent hnew) ?_
      rw [List.length_append, List.length_singleton]
      omega

/-- The ways up from a class are the beginnings of its line. -/
theorem Way.prefix_line (h : r.Way c way) (hline : r.Line c line) : way <+: line := by
  induction way using List.reverseRecOn with
  | nil => exact List.nil_prefix
  | append_singleton below d ih =>
    rcases List.eq_nil_or_concat' below with rfl | ⟨before, last, rfl⟩
    · have hc : d = c := Option.some.inj h.head
      obtain ⟨above, habove⟩ := List.head?_eq_some_iff.mp hline.head
      exact ⟨above, by rw [habove, hc]; rfl⟩
    · -- what comes next on the line is the superclass of the last class, and so is `d`
      obtain ⟨-, -, hlink⟩ := List.isChain_append.mp h.linked
      have hd : r.superclass? last = some d := hlink last (by simp) d rfl
      obtain ⟨above, rfl⟩ := ih (h.of_append (by simp))
      cases above with
      | nil =>
        rw [List.append_nil] at hline
        have hmem := hline.cut last (by simp) d hd
        have hnot := (List.nodup_append'.mp h.nodup).2.2 hmem (List.mem_singleton_self d)
        exact hnot.elim
      | cons e above =>
        obtain ⟨-, -, hnext⟩ := List.isChain_append.mp hline.linked
        have he : r.superclass? last = some e := hnext last (by simp) e rfl
        rw [hd] at he
        cases he
        exact ⟨above, by simp⟩

/-- A class has exactly one line. -/
theorem exists_line_iff (r : Registry) (c : String) :
    ∃ line, ∀ l, r.Line c l ↔ l = line := by
  obtain ⟨line, hline⟩ := (way_singleton r c).exists_line
  refine ⟨line, fun l => ⟨fun hl => ?_, fun hl => hl ▸ hline⟩⟩
  have hle := hl.toWay.prefix_line hline
  have hge := hline.toWay.prefix_line hl
  exact hle.eq_of_length (Nat.le_antisymm hle.length_le hge.length_le)

/-- The superclasses of the classes of a line are on the line. -/
theorem Line.mem_of_superclass? (h : r.Line c line) (hd : d ∈ line)
    (hparent : r.superclass? d = some parent) : parent ∈ line := by
  obtain ⟨below, above, rfl⟩ := List.append_of_mem hd
  cases above with
  | nil => exact h.cut d (by simp) parent hparent
  | cons e above =>
    obtain ⟨-, hlinked, -⟩ := List.isChain_append.mp h.linked
    have he : r.superclass? d = some e := (List.isChain_cons_cons.mp hlinked).1
    rw [hparent] at he
    cases he
    simp

/-- The line of a class on a circle goes round once. -/
theorem Way.line_of_circle (h : r.Way c way)
    (hback : ∀ last ∈ way.getLast?, r.superclass? last = some c) : r.Line c way where
  toWay := h
  cut := by
    intro last hlast parent hparent
    rw [hback last hlast] at hparent
    cases hparent
    exact List.mem_of_mem_head? h.head

/-- A class is the last one on a way up from its superclass, if it is on it at all. -/
theorem Way.eq_append_of_mem (h : r.Way parent way) (hparent : r.superclass? c = some parent)
    (hc : c ∈ way) : ∃ below, way = below ++ [c] := by
  obtain ⟨below, above, rfl⟩ := List.append_of_mem hc
  cases above with
  | nil => exact ⟨below, rfl⟩
  | cons d above =>
    -- the superclass would come again behind the class
    have hd : r.superclass? c = some d :=
      (List.isChain_cons_cons.mp (List.isChain_append.mp h.linked).2.1).1
    rw [hparent] at hd
    cases hd
    rw [← List.singleton_append, ← List.append_assoc] at h
    have hfirst : parent ∈ below ++ [c] := List.mem_of_mem_head? (h.of_append (by simp)).head
    exact ((List.nodup_append'.mp h.nodup).2.2 hfirst (List.mem_cons_self ..)).elim

/-- A way goes on below, if the class there is not on it. -/
theorem Way.cons (h : r.Way parent way) (hparent : r.superclass? c = some parent)
    (hnew : c ∉ way) : r.Way c (c :: way) := by
  obtain ⟨above, rfl⟩ := List.head?_eq_some_iff.mp h.head
  exact ⟨rfl, .cons_cons hparent h.linked, List.nodup_cons.mpr ⟨hnew, h.nodup⟩⟩

end Lines

/-! ## The search turn by turn -/

/-- A turn of the search for a method, with the classes that it has passed and the class that
it stands at, if there is one. -/
def searchTurn (r : Registry) (method : String) :
    List String × Option String → Turn (List String × Option String) (Option JsType)
  | (_, none) => .done none
  | (passed, some c) =>
    if c ∈ passed then .done none
    else match r.ownMethod? c method with
      | some type => .done (some type)
      | none => .again (c :: passed, r.superclass? c)

section Searching

variable {r : Registry} {c m : String} {line : List String}

/-- The search that has passed the first classes of a line ends, with what the others have. -/
theorem Line.ends_search (h : r.Line c line) {below above passed : List String}
    (hsplit : line = below ++ above) (hne : above ≠ []) (hpassed : ∀ d, d ∈ passed ↔ d ∈ below) :
    Ends (r.searchTurn m) (passed, above.head?) (above.findSome? (r.ownMethod? · m)) := by
  induction above generalizing below passed with
  | nil => exact absurd rfl hne
  | cons d above ih =>
    have hnew : d ∉ passed := by
      rw [hpassed]
      intro hd
      have hnodup := h.nodup
      rw [hsplit] at hnodup
      exact (List.nodup_append'.mp hnodup).2.2 hd (List.mem_cons_self ..)
    cases hown : r.ownMethod? d m with
    | some type =>
      rw [List.findSome?_cons_of_isSome (by rw [hown]; rfl), hown]
      exact .now (by simp only [List.head?_cons, searchTurn, if_neg hnew, hown])
    | none =>
      have hturn : r.searchTurn m (passed, (d :: above).head?)
          = .again (d :: passed, r.superclass? d) := by
        simp only [List.head?_cons, searchTurn, if_neg hnew, hown]
      rw [List.findSome?_cons_of_isNone (by rw [hown]; rfl)]
      refine .later hturn ?_
      cases above with
      | nil =>
        -- the line ends here, or the next class was passed
        cases hparent : r.superclass? d with
        | none => exact .now rfl
        | some parent =>
          have hmem : parent ∈ d :: passed := by
            have := h.cut d (by simp [hsplit]) parent hparent
            rw [hsplit, List.mem_append, List.mem_singleton, ← hpassed] at this
            exact List.mem_cons.mpr this.symm
          exact .now (by simp only [searchTurn, if_pos hmem]; rfl)
      | cons e above =>
        have hlinked := h.linked
        rw [hsplit] at hlinked
        have he : r.superclass? d = some e :=
          (List.isChain_cons_cons.mp (List.isChain_append.mp hlinked).2.1).1
        rw [he]
        have hsplit' : line = (below ++ [d]) ++ e :: above := by rw [hsplit]; simp
        refine ih hsplit' (List.cons_ne_nil e above) fun x => ?_
        rw [List.mem_cons, List.mem_append, List.mem_singleton, hpassed, or_comm]

/-- Steps enough to come to a class that declares the method find what it declares. -/
theorem findMethodWithin_of_linked {above : List String} {type : JsType} {steps : Nat}
    (hlinked : (c :: above).IsChain fun d parent => r.superclass? d = some parent)
    (hfound : (c :: above).findSome? (r.ownMethod? · m) = some type)
    (hsteps : above.length < steps) : r.findMethodWithin m steps c = some type := by
  induction above generalizing c steps with
  | nil =>
    obtain ⟨steps, rfl⟩ := Nat.exists_eq_succ_of_ne_zero (Nat.ne_of_gt hsteps)
    have hown : r.ownMethod? c m = some type := by simpa using hfound
    rw [Nat.succ_eq_add_one, findMethodWithin, hown]
  | cons parent above ih =>
    obtain ⟨steps, rfl⟩ := Nat.exists_eq_succ_of_ne_zero (Nat.ne_of_gt (Nat.zero_lt_of_lt hsteps))
    rw [Nat.succ_eq_add_one, findMethodWithin]
    rw [List.findSome?_cons] at hfound
    cases hown : r.ownMethod? c m with
    | some own =>
      rw [hown] at hfound
      exact hfound
    | none =>
      rw [hown] at hfound
      obtain ⟨hparent, hlinked⟩ := List.isChain_cons_cons.mp hlinked
      have hlt : above.length < steps := Nat.lt_of_succ_lt_succ hsteps
      simp only [hparent, Option.bind_some]
      exact ih hlinked hfound hlt

/-- Where no class declares the method, and none has a superclass elsewhere, nothing is found,
however many steps are taken. -/
theorem findMethodWithin_eq_none {classes : List String}
    (hclosed : ∀ d ∈ classes, ∀ parent, r.superclass? d = some parent → parent ∈ classes)
    (hnone : ∀ d ∈ classes, r.ownMethod? d m = none) (hc : c ∈ classes) (steps : Nat) :
    r.findMethodWithin m steps c = none := by
  induction steps generalizing c with
  | zero => rfl
  | succ steps ih =>
    rw [findMethodWithin, hnone c hc]
    cases hparent : r.superclass? c with
    | none => rfl
    | some parent => exact ih (hclosed c hc parent hparent)

/-- A method is found on the first class of the line that declares it. -/
theorem Line.findMethod_eq (h : r.Line c line) :
    r.findMethod c m = line.findSome? (r.ownMethod? · m) := by
  obtain ⟨above, rfl⟩ := List.head?_eq_some_iff.mp h.head
  cases hfound : (c :: above).findSome? (r.ownMethod? · m) with
  | some type =>
    have hle := h.toWay.length_le
    rw [List.length_cons] at hle
    exact findMethodWithin_of_linked h.linked hfound (by omega)
  | none =>
    exact findMethodWithin_eq_none (fun d hd parent => h.mem_of_superclass? hd)
      (List.findSome?_eq_none_iff.mp hfound) (List.mem_cons_self ..) _

/-- A method is found on the class itself, or else from its superclass on. So it does not matter
where a circle is entered. -/
theorem findMethod_eq (r : Registry) (c m : String) : r.findMethod c m
    = (r.ownMethod? c m).or ((r.superclass? c).bind fun parent => r.findMethod parent m) := by
  cases hown : r.ownMethod? c m with
  | some type =>
    unfold findMethod
    rw [findMethodWithin, hown, Option.some_or]
  | none =>
    rw [Option.none_or]
    cases hparent : r.superclass? c with
    | none =>
      unfold findMethod
      rw [findMethodWithin, hown, hparent]
      rfl
    | some parent =>
      obtain ⟨line, hline⟩ := (way_singleton r parent).exists_line
      rw [Option.bind_some, hline.findMethod_eq]
      cases hfound : line.findSome? (r.ownMethod? · m) with
      | none =>
        have hmem : parent ∈ line := List.mem_of_mem_head? hline.head
        have hclosed : ∀ d ∈ c :: line, ∀ above, r.superclass? d = some above →
            above ∈ c :: line := by
          intro d hd above habove
          rcases List.mem_cons.mp hd with rfl | hd
          · rw [hparent] at habove
            cases habove
            exact List.mem_cons_of_mem _ hmem
          · exact List.mem_cons_of_mem _ (hline.mem_of_superclass? hd habove)
        exact findMethodWithin_eq_none hclosed
          (List.forall_mem_cons.mpr ⟨hown, List.findSome?_eq_none_iff.mp hfound⟩)
          (List.mem_cons_self ..) _
      | some type =>
        obtain ⟨below, owner, above, rfl, howner, hnone⟩ := List.findSome?_eq_some_iff.mp hfound
        have hway : r.Way parent (below ++ [owner]) := by
          have := hline.toWay
          rw [← List.singleton_append, ← List.append_assoc] at this
          exact this.of_append (by simp)
        -- the class declares no such method, and so it is not the owner, with which the way ends
        have hnew : c ∉ below ++ [owner] := by
          intro hc
          obtain ⟨below', heq⟩ := hway.eq_append_of_mem hparent hc
          have howner' : owner = c := by simpa using (List.append_inj' heq rfl).2
          rw [howner', hown] at howner
          cases howner
        have hle := (hway.cons hparent hnew).length_le
        refine findMethodWithin_of_linked (hway.cons hparent hnew).linked ?_ hle
        rw [List.findSome?_cons_of_isNone (by rw [hown]; rfl), List.findSome?_append,
          List.findSome?_eq_none_iff.mpr hnone, Option.none_or]
        simpa using howner

/-- In every registry the search for a method ends from every class. It finds what the first class
on the line of that class declares that declares the method, and nothing exactly if there is no
such class. On a circle of superclasses it is found by going round once. What a class declares is,
after any calls, what the last of them says that declares the method on it, or else what it was
before. -/
theorem findMethod_on_line (r : Registry) (c m : String) :
    Ends (r.searchTurn m) ([], some c) (r.findMethod c m) ∧
      (∃ line, (∀ l, r.Line c l ↔ l = line) ∧
        (∀ type, r.findMethod c m = some type ↔ ∃ below owner above,
          line = below ++ owner :: above ∧ (∀ d ∈ below, r.ownMethod? d m = none) ∧
            r.ownMethod? owner m = some type) ∧
        (r.findMethod c m = none ↔ ∀ d ∈ line, r.ownMethod? d m = none)) ∧
      (∀ circle, r.Way c circle → (∀ last ∈ circle.getLast?, r.superclass? last = some c) →
        r.findMethod c m = circle.findSome? (r.ownMethod? · m)) ∧
      ∀ calls : List Call, (calls.foldl run r).ownMethod? c m
        = (calls.reverse.findSome? (Call.declares? c m)).getD (r.ownMethod? c m) := by
  obtain ⟨line, honly⟩ := exists_line_iff r c
  have hline : r.Line c line := (honly line).mpr rfl
  have hfind : r.findMethod c m = line.findSome? (r.ownMethod? · m) := hline.findMethod_eq
  refine ⟨?_, ⟨line, honly, fun type => ?_, ?_⟩, fun circle hway hback =>
    (hway.line_of_circle hback).findMethod_eq, fun calls => ownMethod?_foldl_run r calls c m⟩
  · rw [hfind, ← hline.head]
    -- the search begins with the whole line before it
    exact hline.ends_search (List.nil_append line).symm hline.toWay.ne_nil (by simp)
  · rw [hfind, List.findSome?_eq_some_iff]
    constructor
    · rintro ⟨below, owner, above, hsplit, hown, hnone⟩
      exact ⟨below, owner, above, hsplit, hnone, hown⟩
    · rintro ⟨below, owner, above, hsplit, hnone, hown⟩
      exact ⟨below, owner, above, hsplit, hown, hnone⟩
  · rw [hfind]
    exact List.findSome?_eq_none_iff

-- `A` is below the circle of `B` and `C`, and `C` declares the method
example :
    let r := [.declareClass "A", .declareClass "B", .declareClass "C", .setSuperclass "A" "B",
      .setSuperclass "B" "C", .setSuperclass "C" "B",
      .declareMethod "C" "m" (some .void)].foldl run empty
    (r.superclass? "B", r.superclass? "C") = (some "C", some "B") ∧
      ["A", "B", "C"].map (r.findMethod · "m") = [some .void, some .void, some .void] ∧
      ["A", "B", "C"].map (r.findMethod · "n") = [none, none, none] := by
  decide

end Searching

end SuperForward.Registry
