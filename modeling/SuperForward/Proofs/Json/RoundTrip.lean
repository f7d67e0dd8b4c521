/-
  A value that is written, in any layout, is read again.

  This needs that no object has two members of one name. The value that is read is the same, if
  every number in it is whole; of other numbers it is not said which numbers they are read as.
-/
import SuperForward.Proofs.Json.Numbers
import SuperForward.Proofs.Json.Texts

namespace SuperForward

/-! ## Maps without repeated keys -/

namespace OrderedMap

variable {α β : Type} [DecidableEq α]

/-- Entries with different keys make up a map as they are. -/
theorem entries_ofList {es : List (α × β)} (h : (es.map Prod.fst).Nodup) :
    (ofList es).entries = es := by
  have hfold : ∀ (es : List (α × β)) (m : OrderedMap α β),
      ((m.entries ++ es).map Prod.fst).Nodup → (m.insertAll es).entries = m.entries ++ es := by
    intro es
    induction es with
    | nil => simp [insertAll]
    | cons e es ih =>
      intro m hnodup
      have hput : put e.1 e.2 m.entries = m.entries ++ [e] := by
        refine put_of_not_mem fun d hd heq => ?_
        rw [List.map_append, List.map_cons, List.nodup_append] at hnodup
        exact hnodup.2.2 e.1 (heq ▸ List.mem_map_of_mem hd) e.1 (List.mem_cons_self ..) rfl
      have hinsert : (m.insert e.1 e.2).entries = m.entries ++ [e] := hput
      have := ih (m.insert e.1 e.2) (by rw [hinsert]; simpa using hnodup)
      rw [hinsert] at this
      rw [insertAll, List.foldl_cons]
      simpa [insertAll] using this
  exact hfold es empty (by simpa [empty] using h)

end OrderedMap

namespace Json

/-! ## Formed values -/

namespace Value

mutual

/-- The value is formed as those in records are: its numbers are whole, and no object has two
members of one name. -/
def Formed : Value → Prop
  | .float _ => False
  | .array items => FormedItems items
  | .object members => (members.map Prod.fst).Nodup ∧ FormedMembers members
  | _ => True

/-- All items are formed. -/
def FormedItems : List Value → Prop
  | [] => True
  | v :: rest => v.Formed ∧ FormedItems rest

/-- All members are formed. -/
def FormedMembers : List (String × Value) → Prop
  | [] => True
  | (_, v) :: rest => v.Formed ∧ FormedMembers rest

end

theorem formedItems_iff {items : List Value} : FormedItems items ↔ ∀ v ∈ items, v.Formed := by
  induction items with
  | nil => simp [FormedItems]
  | cons v items ih => simp [FormedItems, ih]

theorem formedMembers_iff {members : List (String × Value)} :
    FormedMembers members ↔ ∀ m ∈ members, m.2.Formed := by
  induction members with
  | nil => simp [FormedMembers]
  | cons m members ih => simp [FormedMembers, ih]

mutual

/-- No object in the value has two members of one name. -/
def WellNamed : Value → Prop
  | .array items => WellNamedItems items
  | .object members => (members.map Prod.fst).Nodup ∧ WellNamedMembers members
  | _ => True

/-- All items are well-named. -/
def WellNamedItems : List Value → Prop
  | [] => True
  | v :: rest => v.WellNamed ∧ WellNamedItems rest

/-- All members are well-named. -/
def WellNamedMembers : List (String × Value) → Prop
  | [] => True
  | (_, v) :: rest => v.WellNamed ∧ WellNamedMembers rest

end

theorem wellNamedItems_iff {items : List Value} :
    WellNamedItems items ↔ ∀ v ∈ items, v.WellNamed := by
  induction items with
  | nil => simp [WellNamedItems]
  | cons v items ih => simp [WellNamedItems, ih]

theorem wellNamedMembers_iff {members : List (String × Value)} :
    WellNamedMembers members ↔ ∀ m ∈ members, m.2.WellNamed := by
  induction members with
  | nil => simp [WellNamedMembers]
  | cons m members ih => simp [WellNamedMembers, ih]

/-- An induction over values: arrays by their items and objects by their members. -/
theorem induct {motive : Value → Prop} (null : motive .null) (bool : ∀ b, motive (.bool b))
    (int : ∀ n, motive (.int n)) (float : ∀ x, motive (.float x)) (string : ∀ s, motive (.string s))
    (array : ∀ items, (∀ v ∈ items, motive v) → motive (.array items))
    (object : ∀ members, (∀ m ∈ members, motive m.2) → motive (.object members)) (v : Value) :
    motive v :=
  @Value.rec motive (fun items => ∀ v ∈ items, motive v) (fun members => ∀ m ∈ members, motive m.2)
    (fun m => motive m.2)
    null bool int float string array object (by simp)
    (fun _ _ hv hitems => List.forall_mem_cons.2 ⟨hv, hitems⟩) (by simp)
    (fun _ _ hm hmembers => List.forall_mem_cons.2 ⟨hm, hmembers⟩) (fun _ _ hv => hv) v

theorem Formed.wellNamed {v : Value} (h : v.Formed) : v.WellNamed := by
  induction v using Value.induct with
  | null | bool | int | string => trivial
  | float x => exact h.elim
  | array items hitems =>
    exact wellNamedItems_iff.2 fun v hv => hitems v hv (formedItems_iff.1 h v hv)
  | object members hmembers =>
    exact ⟨h.1, wellNamedMembers_iff.2 fun m hm => hmembers m hm (formedMembers_iff.1 h.2 m hm)⟩

/-! ## What is read for a value -/

/-- What is read for a number that is not whole. -/
def rereadNumber (x : Decimal.Double) : Value :=
  let text := (x.write numberStyle).toList
  match (literal? text).or (number? text) with
  | some (v, _) => v
  | none => .float x

mutual

/-- What is read for a value: the same value, but for numbers that are not whole. -/
def reread : Value → Value
  | .float x => rereadNumber x
  | .array items => .array (rereadItems items)
  | .object members => .object (rereadMembers members)
  | v => v

/-- What is read for the items of an array. -/
def rereadItems : List Value → List Value
  | [] => []
  | v :: rest => v.reread :: rereadItems rest

/-- What is read for the members of an object. -/
def rereadMembers : List (String × Value) → List (String × Value)
  | [] => []
  | (name, v) :: rest => (name, v.reread) :: rereadMembers rest

end

/-- For a number, another one is read at most. -/
theorem exists_rereadNumber (x : Decimal.Double) : ∃ y, rereadNumber x = .float y
    ∧ ∀ rest, Apart rest → (literal? ((x.write numberStyle).toList ++ rest)).or
        (number? ((x.write numberStyle).toList ++ rest)) = some (.float y, rest) := by
  obtain ⟨y, hy⟩ := exists_reads_float numberStyle x
  refine ⟨y, ?_, hy⟩
  have hread := hy [] apart_nil
  rw [List.append_nil] at hread
  simp only [rereadNumber, hread]

theorem rereadItems_eq_map (items : List Value) : rereadItems items = items.map reread := by
  induction items with
  | nil => rfl
  | cons v items ih => rw [rereadItems, ih, List.map_cons]

theorem rereadMembers_eq_map (members : List (String × Value)) :
    rereadMembers members = members.map fun m => (m.1, m.2.reread) := by
  induction members with
  | nil => rfl
  | cons m members ih => rw [rereadMembers, ih, List.map_cons]

theorem names_rereadMembers (members : List (String × Value)) :
    (rereadMembers members).map Prod.fst = members.map Prod.fst := by
  rw [rereadMembers_eq_map, List.map_map]
  rfl

theorem WellNamed.reread {v : Value} (h : v.WellNamed) : v.reread.WellNamed := by
  induction v using Value.induct with
  | null | bool | int | string => trivial
  | float x =>
    obtain ⟨y, hy, -⟩ := exists_rereadNumber x
    rw [Value.reread, hy]
    trivial
  | array items hitems =>
    rw [Value.reread, rereadItems_eq_map]
    exact wellNamedItems_iff.2 (List.forall_mem_map.2 fun v hv =>
      hitems v hv (wellNamedItems_iff.1 h v hv))
  | object members hmembers =>
    rw [Value.reread]
    refine ⟨(names_rereadMembers members).symm ▸ h.1, ?_⟩
    rw [rereadMembers_eq_map]
    exact wellNamedMembers_iff.2 (List.forall_mem_map.2 fun m hm =>
      hmembers m hm (wellNamedMembers_iff.1 h.2 m hm))

/-- A formed value is read as it is. -/
theorem Formed.reread {v : Value} (h : v.Formed) : v.reread = v := by
  induction v using Value.induct with
  | null | bool | int | string => rfl
  | float x => exact h.elim
  | array items hitems =>
    rw [Value.reread, rereadItems_eq_map, List.map_congr_left fun v hv =>
      hitems v hv (formedItems_iff.1 h v hv), List.map_id']
  | object members hmembers =>
    rw [Value.reread, rereadMembers_eq_map, List.map_congr_left fun m hm => by
      rw [hmembers m hm (formedMembers_iff.1 h.2 m hm)], List.map_id']

end Value

/-! ## Space -/

theorem skip_append {gap : List Char} (h : ∀ c ∈ gap, isSpace c = true) (cs : List Char) :
    skip (gap ++ cs) = skip cs := by
  induction gap with
  | nil => rfl
  | cons c gap ih =>
    have := ih fun d hd => h d (List.mem_cons_of_mem _ hd)
    simp only [skip] at this
    simp [skip, h c (List.mem_cons_self ..), this]

theorem skip_cons {c : Char} (h : isSpace c = false) (cs : List Char) : skip (c :: cs) = c :: cs := by
  simp [skip, h]

namespace Layout

theorem isSpace_lineBreak (layout : Layout) (depth : Nat) :
    ∀ c ∈ (layout.lineBreak depth).toList, isSpace c = true := by
  cases layout with
  | oneLine => simp [lineBreak]
  | lines indent =>
    intro c hc
    rw [lineBreak, String.toList_ofList, List.mem_cons] at hc
    rcases hc with rfl | hc
    · rfl
    · rw [List.eq_of_mem_replicate hc]
      rfl

theorem skip_lineBreak (layout : Layout) (depth : Nat) {c : Char} (h : isSpace c = false)
    (cs : List Char) : skip ((layout.lineBreak depth).toList ++ c :: cs) = c :: cs := by
  rw [skip_append (layout.isSpace_lineBreak depth), skip_cons h]

theorem apart_lineBreak (layout : Layout) (depth : Nat) {c : Char}
    (h : c = ',' ∨ c = ']' ∨ c = '\x7d' ∨ c = '\n') (cs : List Char) :
    Apart ((layout.lineBreak depth).toList ++ c :: cs) := by
  cases layout with
  | oneLine => exact apart_cons h cs
  | lines indent =>
    rw [lineBreak, String.toList_ofList]
    exact apart_cons (.inr (.inr (.inr rfl))) _

/-- A separator is a comma and space. -/
theorem exists_separator (layout : Layout) (depth : Nat) :
    ∃ gap, (layout.separator depth).toList = ',' :: gap ∧ ∀ c ∈ gap, isSpace c = true := by
  cases layout with
  | oneLine => exact ⟨[' '], by simp [separator], List.forall_mem_singleton.2 rfl⟩
  | lines indent =>
    refine ⟨((Layout.lines indent).lineBreak depth).toList, ?_, isSpace_lineBreak _ _⟩
    rw [separator, String.toList_append]
    rfl

/-- Texts with a separator between them. -/
def joined (layout : Layout) (depth : Nat) (texts : List String) : List Char :=
  ((layout.separator depth).intercalate texts).toList

theorem joined_singleton (layout : Layout) (depth : Nat) (text : String) :
    layout.joined depth [text] = text.toList := by
  simp [joined]

theorem joined_cons_cons (layout : Layout) (depth : Nat) (text next : String)
    (texts : List String) : layout.joined depth (text :: next :: texts)
      = text.toList ++ ((layout.separator depth).toList ++ layout.joined depth (next :: texts)) := by
  simp [joined, String.toList_intercalate]

theorem toList_enclose_cons (layout : Layout) (depth : Nat) (opening closing text : String)
    (texts : List String) : (layout.enclose depth opening closing (text :: texts)).toList
      = opening.toList ++ ((layout.lineBreak (depth + 1)).toList
        ++ (layout.joined (depth + 1) (text :: texts)
          ++ ((layout.lineBreak depth).toList ++ closing.toList))) := by
  simp [enclose, joined, String.toList_append]

end Layout

/-! ## Steps of reading -/

section Steps

variable {bound : Nat} {c : Char} {cs rest rest' : List Char}

attribute [local simp] value? items? members?

theorem value?_of_ne (hquote : c ≠ '"') (harray : c ≠ '[') (hobject : c ≠ '\x7b') :
    value? (bound + 1) (c :: cs) = (literal? (c :: cs)).or (number? (c :: cs)) := by
  rw [value?]
  all_goals
    intro _ h
    cases h
    first
      | exact hquote rfl
      | exact harray rfl
      | exact hobject rfl

theorem value?_array_nil (h : skip cs = ']' :: rest) :
    value? (bound + 1) ('[' :: cs) = some (.array [], rest) := by
  rw [value?, h]
  rfl

theorem value?_array {items : List Value} (hskip : skip cs = c :: rest) (hne : c ≠ ']')
    (h : items? bound (c :: rest) = some (items, rest')) :
    value? (bound + 1) ('[' :: cs) = some (.array items, rest') := by
  rw [value?, hskip]
  split
  · next heq =>
    cases heq
    exact absurd rfl hne
  · rw [h]
    rfl

theorem value?_object_nil (h : skip cs = '\x7d' :: rest) :
    value? (bound + 1) ('\x7b' :: cs) = some (.object [], rest) := by
  rw [value?, h]
  rfl

theorem value?_object {members : List (String × Value)} (hskip : skip cs = c :: rest)
    (hne : c ≠ '\x7d') (h : members? bound (c :: rest) = some (members, rest')) :
    value? (bound + 1) ('\x7b' :: cs) = some (.ofMembers members, rest') := by
  rw [value?, hskip]
  split
  · next heq =>
    cases heq
    exact absurd rfl hne
  · rw [h]
    rfl

theorem items?_last {v : Value} (hv : value? bound cs = some (v, rest))
    (hskip : skip rest = ']' :: rest') : items? (bound + 1) cs = some ([v], rest') := by
  simp [hv, hskip]

theorem items?_more {v : Value} {vs : List Value} {more : List Char}
    (hv : value? bound cs = some (v, rest)) (hskip : skip rest = ',' :: more)
    (hvs : items? bound (skip more) = some (vs, rest')) :
    items? (bound + 1) cs = some (v :: vs, rest') := by
  simp [hv, hskip, hvs]

theorem members?_last {name : String} {v : Value} {tail between : List Char}
    (hname : string? cs = some (name, tail)) (hcolon : skip tail = ':' :: between)
    (hv : value? bound (skip between) = some (v, rest)) (hskip : skip rest = '\x7d' :: rest') :
    members? (bound + 1) cs = some ([(name, v)], rest') := by
  simp [hname, hcolon, hv, hskip]

theorem members?_more {name : String} {v : Value} {ms : List (String × Value)}
    {tail between more : List Char}
    (hname : string? cs = some (name, tail)) (hcolon : skip tail = ':' :: between)
    (hv : value? bound (skip between) = some (v, rest)) (hskip : skip rest = ',' :: more)
    (hms : members? bound (skip more) = some (ms, rest')) :
    members? (bound + 1) cs = some ((name, v) :: ms, rest') := by
  simp [hname, hcolon, hv, hskip, hms]

end Steps

/-! ## Reading what was written -/

namespace Value

attribute [local simp] writeAt writeItems writeMembers

/-- What a value is written as begins with something that is neither space nor closing. -/
theorem exists_head_writeAt (layout : Layout) (depth : Nat) (v : Value) :
    ∃ c cs, (v.writeAt layout depth).toList = c :: cs ∧ isSpace c = false ∧ c ≠ ']' := by
  have hdigit {c : Char} (h : c.isDigit = true) : isSpace c = false ∧ c ≠ ']' := by
    refine ⟨?_, ?_⟩
    · simp only [isSpace, Bool.or_eq_false_iff, beq_eq_false_iff_ne]
      refine ⟨⟨⟨?_, ?_⟩, ?_⟩, ?_⟩
      all_goals
        rintro rfl
        exact absurd h (by decide)
    · rintro rfl
      exact absurd h (by decide)
  cases v with
  | null => exact ⟨'n', "ull".toList, by simp, rfl, by decide⟩
  | bool b =>
    cases b with
    | false => exact ⟨'f', "alse".toList, by simp, rfl, by decide⟩
    | true => exact ⟨'t', "rue".toList, by simp, rfl, by decide⟩
  | int n =>
    obtain ⟨c, cs, hcs, h⟩ := exists_head_int n
    refine ⟨c, cs, by rw [writeAt, hcs], ?_⟩
    -- a digit, or the sign
    rcases h with h | rfl
    · exact hdigit h
    · exact ⟨rfl, by decide⟩
  | float x =>
    obtain ⟨c, cs, hcs, h⟩ := exists_head_float numberStyle x
    refine ⟨c, cs, by rw [writeAt, hcs], ?_⟩
    -- a digit, the sign, or the first letter of a number that is not finite
    rcases h with h | rfl | rfl | rfl
    · exact hdigit h
    all_goals exact ⟨rfl, by decide⟩
  | string s => exact ⟨'"', _, by rw [writeAt, toList_quoted], rfl, by decide⟩
  | array items =>
    refine ⟨'[', ((writeAt layout depth (.array items)).toList).tail, ?_, rfl, by decide⟩
    rw [writeAt]
    cases writeItems layout (depth + 1) items with
    | nil => simp [Layout.enclose]
    | cons => rw [Layout.toList_enclose_cons]; rfl
  | object members =>
    refine ⟨'\x7b', ((writeAt layout depth (.object members)).toList).tail, ?_, rfl, by decide⟩
    rw [writeAt]
    cases writeMembers layout (depth + 1) members with
    | nil => simp [Layout.enclose]
    | cons => rw [Layout.toList_enclose_cons]; rfl

/-- What several texts are joined to begins like the first. -/
theorem exists_head_joined (layout : Layout) (depth : Nat) {text : String} (texts : List String)
    {c : Char} {cs : List Char} (h : text.toList = c :: cs) :
    ∃ cs', layout.joined depth (text :: texts) = c :: cs' := by
  cases texts with
  | nil => exact ⟨cs, by rw [Layout.joined_singleton, h]⟩
  | cons next texts => exact ⟨_, by rw [Layout.joined_cons_cons, h, List.cons_append]⟩

/-- A value is read up to what stands apart from it, in enough steps. -/
def Reads (layout : Layout) (v : Value) : Prop :=
  ∀ (depth bound : Nat) (rest : List Char), v.WellNamed → Apart rest →
    2 * (v.writeAt layout depth).toList.length ≤ bound →
    value? bound ((v.writeAt layout depth).toList ++ rest) = some (v.reread, rest)

variable {layout : Layout}

/-- What is written takes a step at least. -/
theorem exists_bound {v : Value} {depth bound : Nat}
    (h : 2 * (v.writeAt layout depth).toList.length ≤ bound) : ∃ b, bound = b + 1 := by
  obtain ⟨c, cs, hcs, -⟩ := exists_head_writeAt layout depth v
  refine ⟨bound - 1, ?_⟩
  rw [hcs, List.length_cons] at h
  omega

theorem reads_null : Reads layout .null := by
  intro depth bound rest _ _ hbound
  obtain ⟨bound, rfl⟩ := exists_bound hbound
  simp [value?, literal?, word?, reread]

theorem reads_bool (b : Bool) : Reads layout (.bool b) := by
  intro depth bound rest _ _ hbound
  obtain ⟨bound, rfl⟩ := exists_bound hbound
  cases b <;> simp [value?, literal?, word?, reread]

theorem reads_int (n : Int) : Reads layout (.int n) := by
  intro depth bound rest _ hrest hbound
  obtain ⟨bound, rfl⟩ := exists_bound hbound
  obtain ⟨c, cs, hcs, hc⟩ := exists_head_int n
  have hread := number?_int n hrest
  rw [writeAt]
  rw [hcs, List.cons_append] at hread ⊢
  rw [value?_of_ne, hread]
  · rfl
  all_goals
    rintro rfl
    simp at hc

theorem reads_float (x : Decimal.Double) : Reads layout (.float x) := by
  intro depth bound rest _ hrest hbound
  obtain ⟨bound, rfl⟩ := exists_bound hbound
  obtain ⟨c, cs, hcs, hc⟩ := exists_head_float numberStyle x
  obtain ⟨y, hy, hreads⟩ := exists_rereadNumber x
  have hread := hreads rest hrest
  rw [writeAt, reread, hy]
  rw [hcs, List.cons_append] at hread ⊢
  rw [value?_of_ne, hread]
  all_goals
    rintro rfl
    simp at hc

theorem reads_string (s : String) : Reads layout (.string s) := by
  intro depth bound rest _ _ hbound
  obtain ⟨bound, rfl⟩ := exists_bound hbound
  have hread := string?_quoted s rest
  rw [writeAt, toList_quoted, List.cons_append] at *
  rw [value?, hread]
  rfl

/-- Items are read up to the closing bracket. -/
theorem items?_writeItems {items : List Value} (hitems : ∀ v ∈ items, Reads layout v)
    (hne : items ≠ []) {depth bound outer : Nat} {rest : List Char} (hnamed : WellNamedItems items)
    (hbound : 2 * (layout.joined depth (writeItems layout depth items)).length + 1 ≤ bound) :
    items? bound (layout.joined depth (writeItems layout depth items)
      ++ ((layout.lineBreak outer).toList ++ ']' :: rest)) = some (rereadItems items, rest) := by
  induction items generalizing bound with
  | nil => exact absurd rfl hne
  | cons v items ih =>
    obtain ⟨bound, rfl⟩ : ∃ b, bound = b + 1 := ⟨bound - 1, by omega⟩
    have hv := hitems v (List.mem_cons_self ..)
    -- the last item is followed by the line break before the bracket, the others by a comma
    cases items with
    | nil =>
      have hjoined : layout.joined depth (writeItems layout depth [v])
          = (v.writeAt layout depth).toList := Layout.joined_singleton ..
      rw [hjoined] at hbound ⊢
      exact items?_last (hv depth bound _ hnamed.1
        (layout.apart_lineBreak outer (.inr (.inl rfl)) rest) (by omega))
        (layout.skip_lineBreak outer rfl rest)
    | cons w items =>
      obtain ⟨gap, hsep, hgap⟩ := layout.exists_separator depth
      have hjoined : layout.joined depth (writeItems layout depth (v :: w :: items))
          = (v.writeAt layout depth).toList
            ++ ',' :: (gap ++ layout.joined depth (writeItems layout depth (w :: items))) := by
        rw [writeItems, writeItems, Layout.joined_cons_cons, hsep]
        rfl
      rw [hjoined] at hbound ⊢
      simp only [List.length_append, List.length_cons] at hbound
      obtain ⟨c, cs, hcs, hspace, -⟩ := exists_head_writeAt layout depth w
      obtain ⟨cs', hhead⟩ := exists_head_joined layout depth (writeItems layout depth items) hcs
      have hskip (tail : List Char) :
          skip (gap ++ (layout.joined depth (writeItems layout depth (w :: items)) ++ tail))
            = layout.joined depth (writeItems layout depth (w :: items)) ++ tail := by
        rw [skip_append hgap, writeItems, hhead, List.cons_append, skip_cons hspace]
      have hrest := @ih (fun u hu => hitems u (List.mem_cons_of_mem _ hu)) (by simp) bound
        hnamed.2 (by omega)
      rw [List.append_assoc, List.cons_append, List.append_assoc]
      refine items?_more (hv depth bound _ hnamed.1 (apart_cons (.inl rfl) _) (by omega))
        (skip_cons rfl _) ?_
      rw [hskip]
      exact hrest

/-- A member is read by its name, a colon and its value. -/
theorem toList_member (name : String) (v : Value) (depth : Nat) (tail : List Char) :
    (quoted name ++ ": " ++ v.writeAt layout depth).toList ++ tail
      = (quoted name).toList ++ ':' :: ' ' :: ((v.writeAt layout depth).toList ++ tail) := by
  simp [String.toList_append]

/-- A member begins with the quote of its name. -/
theorem toList_head_member (name : String) (v : Value) (depth : Nat) :
    (quoted name ++ ": " ++ v.writeAt layout depth).toList
      = '"' :: ((quoted name ++ ": " ++ v.writeAt layout depth).toList).tail := by
  simp only [String.toList_append, toList_quoted]
  rfl

theorem skip_value (v : Value) (depth : Nat) (tail : List Char) :
    skip (' ' :: ((v.writeAt layout depth).toList ++ tail))
      = (v.writeAt layout depth).toList ++ tail := by
  obtain ⟨c, cs, hcs, hspace, -⟩ := exists_head_writeAt layout depth v
  rw [hcs, List.cons_append]
  exact (@skip_append [' '] (List.forall_mem_singleton.2 rfl) _).trans (skip_cons hspace _)

/-- Members are read up to the closing brace. -/
theorem members?_writeMembers {members : List (String × Value)}
    (hmembers : ∀ m ∈ members, Reads layout m.2) (hne : members ≠ []) {depth bound outer : Nat}
    {rest : List Char} (hnamed : WellNamedMembers members)
    (hbound : 2 * (layout.joined depth (writeMembers layout depth members)).length + 1 ≤ bound) :
    members? bound (layout.joined depth (writeMembers layout depth members)
      ++ ((layout.lineBreak outer).toList ++ '\x7d' :: rest))
      = some (rereadMembers members, rest) := by
  induction members generalizing bound with
  | nil => exact absurd rfl hne
  | cons m members ih =>
    obtain ⟨name, v⟩ := m
    obtain ⟨bound, rfl⟩ : ∃ b, bound = b + 1 := ⟨bound - 1, by omega⟩
    have hv : Reads layout v := hmembers _ (List.mem_cons_self ..)
    -- the last member is followed by the line break before the brace, the others by a comma
    cases members with
    | nil =>
      have hjoined : layout.joined depth (writeMembers layout depth [(name, v)])
          = (quoted name ++ ": " ++ v.writeAt layout depth).toList := Layout.joined_singleton ..
      rw [hjoined] at hbound ⊢
      rw [toList_member]
      simp only [String.toList_append, List.length_append] at hbound
      refine members?_last (string?_quoted name _) (skip_cons rfl _) ?_
        (layout.skip_lineBreak outer rfl rest)
      rw [skip_value]
      exact hv depth bound _ hnamed.1 (layout.apart_lineBreak outer (.inr (.inr (.inl rfl))) rest)
        (by omega)
    | cons next members =>
      obtain ⟨gap, hsep, hgap⟩ := layout.exists_separator depth
      have hjoined : layout.joined depth (writeMembers layout depth ((name, v) :: next :: members))
          = (quoted name ++ ": " ++ v.writeAt layout depth).toList
            ++ ',' :: (gap ++ layout.joined depth (writeMembers layout depth (next :: members))) := by
        rw [writeMembers, writeMembers, Layout.joined_cons_cons, hsep]
        rfl
      rw [hjoined] at hbound ⊢
      simp only [String.toList_append, List.length_append, List.length_cons] at hbound
      obtain ⟨cs, hhead⟩ := exists_head_joined layout depth (writeMembers layout depth members)
        (toList_head_member next.1 next.2 depth)
      have hskip (tail : List Char) :
          skip (gap ++ (layout.joined depth (writeMembers layout depth (next :: members)) ++ tail))
            = layout.joined depth (writeMembers layout depth (next :: members)) ++ tail := by
        rw [skip_append hgap, writeMembers, hhead, List.cons_append, skip_cons rfl]
      have hrest := @ih (fun u hu => hmembers u (List.mem_cons_of_mem _ hu)) (by simp) bound
        hnamed.2 (by omega)
      rw [List.append_assoc, List.cons_append, List.append_assoc, toList_member]
      have hvalue (tail : List Char) : value? bound (skip (' ' :: ((v.writeAt layout depth).toList
          ++ ',' :: tail))) = some (v.reread, ',' :: tail) := by
        rw [skip_value]
        exact hv depth bound _ hnamed.1 (apart_cons (.inl rfl) tail) (by omega)
      exact members?_more (string?_quoted name _) (skip_cons rfl _) (hvalue _) (skip_cons rfl _)
        (by rw [hskip]; exact hrest)

theorem reads_array {items : List Value} (hitems : ∀ v ∈ items, Reads layout v) :
    Reads layout (.array items) := by
  intro depth bound rest hnamed _ hbound
  obtain ⟨bound, rfl⟩ := exists_bound hbound
  cases items with
  | nil =>
    have hshape : ((Value.array []).writeAt layout depth).toList = ['[', ']'] := by
      simp [Layout.enclose]
    rw [hshape]
    exact value?_array_nil (skip_cons rfl _)
  | cons v items =>
    obtain ⟨c, cs, hcs, hspace, hne⟩ := exists_head_writeAt layout (depth + 1) v
    obtain ⟨cs', hhead⟩ :=
      exists_head_joined layout (depth + 1) (writeItems layout (depth + 1) items) hcs
    have hshape : ((Value.array (v :: items)).writeAt layout depth).toList = '[' ::
        ((layout.lineBreak (depth + 1)).toList
          ++ (layout.joined (depth + 1) (writeItems layout (depth + 1) (v :: items))
            ++ ((layout.lineBreak depth).toList ++ [']']))) := by
      rw [writeAt, writeItems, Layout.toList_enclose_cons]
      rfl
    rw [hshape] at hbound ⊢
    have hread := @items?_writeItems layout (v :: items) hitems (by simp) (depth + 1) bound depth
      rest hnamed (by
        simp only [List.length_append, List.length_cons] at hbound
        omega)
    simp only [List.cons_append, List.append_assoc, List.nil_append]
    rw [writeItems, hhead] at hread ⊢
    exact value?_array (layout.skip_lineBreak (depth + 1) hspace _) hne hread

theorem reads_object {members : List (String × Value)}
    (hmembers : ∀ m ∈ members, Reads layout m.2) : Reads layout (.object members) := by
  intro depth bound rest hnamed _ hbound
  obtain ⟨bound, rfl⟩ := exists_bound hbound
  cases members with
  | nil =>
    have hshape : ((Value.object []).writeAt layout depth).toList = ['\x7b', '\x7d'] := by
      simp [Layout.enclose]
    rw [hshape]
    exact value?_object_nil (skip_cons rfl _)
  | cons m members =>
    obtain ⟨name, v⟩ := m
    obtain ⟨cs, hhead⟩ := exists_head_joined layout (depth + 1)
      (writeMembers layout (depth + 1) members) (toList_head_member name v (depth + 1))
    have hshape : ((Value.object ((name, v) :: members)).writeAt layout depth).toList = '\x7b' ::
        ((layout.lineBreak (depth + 1)).toList
          ++ (layout.joined (depth + 1) (writeMembers layout (depth + 1) ((name, v) :: members))
            ++ ((layout.lineBreak depth).toList ++ ['\x7d']))) := by
      rw [writeAt, writeMembers, Layout.toList_enclose_cons]
      rfl
    rw [hshape] at hbound ⊢
    have hread := @members?_writeMembers layout ((name, v) :: members) hmembers (by simp)
      (depth + 1) bound depth rest hnamed.2 (by
        simp only [List.length_append, List.length_cons] at hbound
        omega)
    have hentries : Value.ofMembers (rereadMembers ((name, v) :: members))
        = .object (rereadMembers ((name, v) :: members)) :=
      congrArg Value.object (OrderedMap.entries_ofList ((names_rereadMembers _).symm ▸ hnamed.1))
    simp only [List.cons_append, List.append_assoc, List.nil_append]
    rw [reread, ← hentries]
    rw [writeMembers, hhead] at hread ⊢
    exact value?_object (layout.skip_lineBreak (depth + 1) rfl _) (by decide) hread

theorem reads (layout : Layout) (v : Value) : Reads layout v := by
  induction v using Value.induct with
  | null => exact reads_null
  | bool b => exact reads_bool b
  | int n => exact reads_int n
  | float x => exact reads_float x
  | string s => exact reads_string s
  | array items hitems => exact reads_array hitems
  | object members hmembers => exact reads_object hmembers

/-- A value is read from the text as which it is written. -/
theorem ofText?_write_reread (layout : Layout) {v : Value} (h : v.WellNamed) :
    ofText? (v.write layout) = some v.reread := by
  obtain ⟨c, cs, hcs, hspace, -⟩ := exists_head_writeAt layout 0 v
  have hskip : skip (v.write layout).toList = (v.write layout).toList := by
    rw [write, hcs, skip_cons hspace]
  have hread := reads layout v 0 (2 * (v.write layout).toList.length + 1) [] h apart_nil
    (Nat.le_succ _)
  rw [List.append_nil] at hread
  rw [ofText?]
  simp only [hskip, bind, Option.bind]
  rw [write] at *
  rw [hread]
  rfl

end Value

end Json

end SuperForward
