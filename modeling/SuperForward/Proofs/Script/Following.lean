/-
  What may follow a phrase, and why a greedy phrase is read.

  A phrase is read off the head of some tokens if the token after it can neither extend it nor
  begin something that was left out of it. Within a rule this is a question of which tokens may
  come next, which is decided rule by rule; where an `else`, a member access or arguments come
  next, it is settled by the phrase being greedy.
-/
import SuperForward.Proofs.Script.Greedy

namespace SuperForward.Script

/-! ## What may follow -/

/-- How loose the expressions are that may stand last in an expression. -/
def Rank.reach : Rank → Rank
  | .conditional => .assignment
  | rank => rank

/-- The token extends no expression that is so tight. -/
def Rank.follows (rank : Rank) (kind : TokenKind) : Bool :=
  ((Category.expression rank.reach .anywhere).extension .member kind).isNone

/-- The token may follow a phrase of the category that does not want it. -/
def Category.follows : Category → TokenKind → Bool
  | .statement, kind => kind != .keyword .catchKw && kind != .keyword .finallyKw
  | .switchCase, kind => !Category.statement.startsWith kind && kind != .keyword .catchKw &&
    kind != .keyword .finallyKw
  | .expression limit _, kind => limit.follows kind
  | .newTarget, kind => kind != .mark .dot
  | .declarator, kind | .param, kind | .argument, kind => Rank.assignment.follows kind
  | .params, kind => Rank.assignment.follows kind && kind != .mark .comma
  | .property, kind => Rank.assignment.follows kind && kind != .mark .colon
  | .forInit, kind => Rank.sequence.follows kind
  | _, _ => true

/-- Every kind of token, or the end of the tokens. -/
def nextKinds : List (Option TokenKind) := none :: TokenKind.all.map some

theorem mem_nextKinds (next : Option TokenKind) : next ∈ nextKinds := by
  cases next with
  | none => exact .head _
  | some kind => exact .tail _ (List.mem_map_of_mem (TokenKind.mem_all kind))

/-- The group begins with this. -/
def groupBegins (ps : List Part) (next : Option TokenKind) : Bool :=
  next.any fun kind => ps.head?.any (·.startsWith kind)

/-- What comes next where some parts come, and then one of `after`. -/
def partsNext (ps : List Part) (after : Option TokenKind → Bool) : Option TokenKind → Bool :=
  match ps with
  | [] => after
  | p :: _ => fun next => next.any p.startsWith

/-- What comes next where some items come, and then one of `after`. -/
def itemsNext : List Item → (Option TokenKind → Bool) → Option TokenKind → Bool
  | [], after => after
  | .one p :: _, _ => fun next => next.any p.startsWith
  | .optional ps :: is, after | .repeated ps :: is, after =>
    fun next => groupBegins ps next || itemsNext is after next
  | .list c shape :: is, after =>
    fun next => next.any c.startsWith || (shape.mayBeEmpty && itemsNext is after next)

section Allow

/- `may c kind` says that the token may follow a phrase of the category. -/
variable (may : Category → TokenKind → Bool)

/-- Whatever of `after` comes next may follow the part. -/
def Part.allows (p : Part) (after : Option TokenKind → Bool) : Bool :=
  match p with
  | .token _ => true
  | .phrase c => nextKinds.all fun next => !after next || next.all (may c)

/-- Each part may be followed by what comes next. -/
def partsAllow : List Part → (Option TokenKind → Bool) → Bool
  | [], _ => true
  | p :: ps, after => p.allows may (partsNext ps after) && partsAllow ps after

/-- The item may be followed by what comes next, which does not look like more of it. -/
def Item.allows (i : Item) (after : Option TokenKind → Bool) : Bool :=
  match i with
  | .one p => p.allows may after
  | .optional ps => partsAllow may ps after &&
    nextKinds.all fun next => !after next || !groupBegins ps next
  | .repeated ps => partsAllow may ps (fun next => after next || groupBegins ps next) &&
    nextKinds.all fun next => !after next || !groupBegins ps next
  | .list c shape =>
    Part.allows may (.phrase c) (fun next => after next || next == some (.mark .comma)) &&
    nextKinds.all fun next => !after next || (next != some (.mark .comma) &&
      (!shape.mayBeEmpty || next.all fun kind => !c.startsWith kind) &&
      (!shape.mayTrail || next.any fun kind => !c.startsWith kind))

/-- Each item may be followed by what comes next. -/
def itemsAllow : List Item → (Option TokenKind → Bool) → Bool
  | [], _ => true
  | i :: is, after => i.allows may (itemsNext is after) && itemsAllow is after

end Allow

theorem of_all_nextKinds {p q : Option TokenKind → Bool}
    (h : (nextKinds.all fun next => !p next || q next) = true) {next : Option TokenKind}
    (hp : p next = true) : q next = true := by
  have := List.all_eq_true.mp h next (mem_nextKinds next)
  rw [hp] at this
  exact this

theorem Part.follows_of_allows {may : Category → TokenKind → Bool} {c : Category}
    {after : Option TokenKind → Bool} (h : (Part.phrase c).allows may after = true)
    {next : Option TokenKind} (hafter : after next = true) : ∀ kind ∈ next, may c kind = true := by
  intro kind hkind
  have hall : (nextKinds.all fun next => !after next || next.all (may c)) = true := h
  have := of_all_nextKinds hall hafter
  rw [Option.mem_def.mp hkind] at this
  exact this

/-! ## Taking what fits -/

theorem itemsFit_append {P : Category → Tree → Prop} {is js : List Item} {zs : List Tree} :
    itemsFit P (is ++ js) zs ↔ ∃ xs ys, zs = xs ++ ys ∧ itemsFit P is xs ∧ itemsFit P js ys := by
  induction is generalizing zs with
  | nil =>
    constructor
    · exact fun h => ⟨[], zs, rfl, rfl, h⟩
    · rintro ⟨xs, ys, rfl, rfl, h⟩
      exact h
  | cons i is ih =>
    constructor
    · rintro ⟨as, bs, rfl, has, hbs⟩
      obtain ⟨xs, ys, rfl, hxs, hys⟩ := ih.mp hbs
      exact ⟨as ++ xs, ys, (List.append_assoc ..).symm, ⟨as, xs, rfl, has, hxs⟩, hys⟩
    · rintro ⟨_, ys, rfl, ⟨as, xs, rfl, has, hxs⟩, hys⟩
      exact ⟨as, xs ++ ys, List.append_assoc .., has, ih.mpr ⟨xs, ys, rfl, hxs, hys⟩⟩

theorem length_of_itemsFit {P : Category → Tree → Prop} {parts : List Part} {xs : List Tree}
    (h : itemsFit P (parts.map .one) xs) : xs.length = parts.length := by
  induction parts generalizing xs with
  | nil => rw [show xs = [] from h]; rfl
  | cons p parts ih =>
    obtain ⟨y, ys, rfl, -, hys⟩ := itemsFit_one.mp h
    rw [List.length_cons, List.length_cons, ih hys]

theorem TakesItems.append {P : Category → List Token → Tree → List Token → Prop}
    {is js : List Item} {ts mid rest : List Token} {xs ys : List Tree}
    (h : TakesItems P is ts xs mid) (h' : TakesItems P js mid ys rest) :
    TakesItems P (is ++ js) ts (xs ++ ys) rest := by
  induction h with
  | nil => exact h'
  | cons head _ ih => rw [List.append_assoc]; exact .cons head (ih h')

/-- After an element of a list comes a comma, or the list ends. -/
theorem MoreFit.next {P : Category → Tree → Prop} {c : Category} {shape : ListShape}
    {xs : List Tree} (h : MoreFit P c shape xs) {after : Option TokenKind → Bool}
    {rest : List Token} (hafter : after (nextKind? rest) = true) :
    (after (nextKind? (Tree.tokensOfAll xs ++ rest)) ||
      nextKind? (Tree.tokensOfAll xs ++ rest) == some (.mark .comma)) = true := by
  cases h with
  | none => exact (Bool.or_eq_true _ _).mpr (.inl hafter)
  | trail comma _ =>
    exact (Bool.or_eq_true _ _).mpr (.inr (beq_iff_eq.mpr (congrArg some comma)))
  | more comma _ _ =>
    exact (Bool.or_eq_true _ _).mpr (.inr (beq_iff_eq.mpr (congrArg some comma)))

section Fits

/- Phrases inside begin as their category says. They are taken before what may follow them, if
`G` holds of them there. -/
variable {Q : Category → Tree → Prop} {P : Category → List Token → Tree → List Token → Prop}
  {G : List Tree → List Token → Prop} {may : Category → TokenKind → Bool}
  (hfirst : ∀ {c x}, Q c x → ∃ t ts, x.tokens = t :: ts ∧ c.startsWith t.kind = true)
  (hG : ∀ xs ys ts, G (xs ++ ys) ts → G xs (Tree.tokensOfAll ys ++ ts) ∧ G ys ts)
  (htakes : ∀ c x (rest : List Token), Q c x → G [x] rest →
    (∀ kind ∈ nextKind? rest, may c kind = true) → P c (x.tokens ++ rest) x rest)

include hfirst

theorem Part.Fits.next {p : Part} {x : Tree} (h : p.Fits Q x) (ts : List Token) :
    (nextKind? (x.tokens ++ ts)).any p.startsWith = true := by
  cases p with
  | token kind =>
    obtain ⟨t, rfl, rfl⟩ := h
    exact beq_self_eq_true t.kind
  | phrase c =>
    obtain ⟨t, ts', htokens, ht⟩ := hfirst h
    rw [htokens]
    exact ht

theorem partsFit_next {ps : List Part} {xs : List Tree} (h : partsFit Q ps xs) {ts : List Token}
    {after : Option TokenKind → Bool} (hafter : after (nextKind? ts) = true) :
    partsNext ps after (nextKind? (Tree.tokensOfAll xs ++ ts)) = true := by
  cases ps with
  | nil =>
    rw [show xs = [] from h]
    exact hafter
  | cons p ps =>
    obtain ⟨y, ys, rfl, hy, -⟩ := h
    rw [Tree.tokensOfAll, List.append_assoc]
    exact hy.next hfirst _

theorem partsFit_begins {ps : List Part} {xs : List Tree} (h : partsFit Q ps xs)
    (hps : ps ≠ []) (ts : List Token) :
    groupBegins ps (nextKind? (Tree.tokensOfAll xs ++ ts)) = true := by
  cases ps with
  | nil => exact absurd rfl hps
  | cons p ps =>
    obtain ⟨y, ys, rfl, hy, -⟩ := h
    rw [Tree.tokensOfAll, List.append_assoc]
    have := hy.next hfirst (Tree.tokensOfAll ys ++ ts)
    obtain ⟨kind, hkind, hstart⟩ := (Option.any_eq_true _ _).mp this
    rw [groupBegins, Option.mem_def.mp hkind]
    exact hstart

theorem itemsFit_next {is : List Item}
    (his : ∀ i ∈ is, ∀ ps, i = .optional ps ∨ i = .repeated ps → ps ≠ [])
    {xs : List Tree} (h : itemsFit Q is xs) {ts : List Token} {after : Option TokenKind → Bool}
    (hafter : after (nextKind? ts) = true) :
    itemsNext is after (nextKind? (Tree.tokensOfAll xs ++ ts)) = true := by
  induction is generalizing xs with
  | nil =>
    rw [show xs = [] from h]
    exact hafter
  | cons i is ih =>
    obtain ⟨hi, his⟩ := List.forall_mem_cons.mp his
    obtain ⟨ys, zs, rfl, hys, hzs⟩ := h
    have hrest := ih his hzs
    rw [Tree.tokensOfAll_append, List.append_assoc]
    -- where an item may be missing, what follows it may come first as well
    cases i with
    | one p =>
      obtain ⟨y, rfl, hy⟩ := hys
      simp only [Tree.tokensOfAll, List.append_nil]
      exact hy.next hfirst _
    | optional ps =>
      refine (Bool.or_eq_true _ _).mpr ?_
      rcases hys with rfl | hys
      · exact .inr hrest
      · exact .inl (partsFit_begins hfirst hys (hi ps (.inl rfl)) _)
    | repeated ps =>
      refine (Bool.or_eq_true _ _).mpr ?_
      obtain ⟨groups, rfl, hgroups⟩ := hys
      cases groups with
      | nil => exact .inr hrest
      | cons g groups =>
        rw [List.flatten_cons, Tree.tokensOfAll_append, List.append_assoc]
        exact .inl (partsFit_begins hfirst (hgroups g (List.mem_cons_self ..))
          (hi ps (.inr rfl)) _)
    | list c shape =>
      refine (Bool.or_eq_true _ _).mpr ?_
      rcases hys with ⟨he, rfl⟩ | ⟨y, ys, rfl, hy, -⟩
      · exact .inr ((Bool.and_eq_true _ _).mpr ⟨he, hrest⟩)
      · rw [Tree.tokensOfAll, List.append_assoc]
        exact .inl (Part.Fits.next hfirst (p := .phrase c) hy _)

include hG htakes

omit hfirst hG in
theorem Part.Fits.takes {p : Part} {x : Tree} (h : p.Fits Q x)
    {after : Option TokenKind → Bool} (hallows : p.allows may after = true) {rest : List Token}
    (hgreedy : G [x] rest) (hafter : after (nextKind? rest) = true) :
    TakesPart P p (x.tokens ++ rest) x rest := by
  cases p with
  | token kind =>
    obtain ⟨t, rfl, rfl⟩ := h
    exact .token t rest
  | phrase c =>
    exact .phrase (htakes _ _ _ h hgreedy (follows_of_allows hallows hafter))

theorem partsFit_takes {ps : List Part} {xs : List Tree} (h : partsFit Q ps xs)
    {after : Option TokenKind → Bool} (hallow : partsAllow may ps after = true) {rest : List Token}
    (hgreedy : G xs rest) (hafter : after (nextKind? rest) = true) :
    TakesParts P ps (Tree.tokensOfAll xs ++ rest) xs rest := by
  induction ps generalizing xs with
  | nil =>
    rw [show xs = [] from h]
    exact .nil rest
  | cons p ps ih =>
    obtain ⟨y, ys, rfl, hy, hys⟩ := h
    obtain ⟨hp, hps⟩ := (Bool.and_eq_true _ _).mp hallow
    obtain ⟨hgy, hgys⟩ := hG [_] _ _ hgreedy
    rw [Tree.tokensOfAll, List.append_assoc]
    exact .cons (hy.takes htakes hp hgy (partsFit_next hfirst hys hafter))
      (ih hys hps hgys)

theorem MoreFit.takes {c : Category} {shape : ListShape} {xs : List Tree}
    (h : MoreFit Q c shape xs) {after : Option TokenKind → Bool}
    (hallows : (Item.list c shape).allows may after = true) {rest : List Token}
    (hgreedy : G xs rest) (hafter : after (nextKind? rest) = true) :
    TakesMore P c shape (Tree.tokensOfAll xs ++ rest) xs rest := by
  obtain ⟨hfollows, hstop⟩ := (Bool.and_eq_true _ _).mp hallows
  have hnext := of_all_nextKinds hstop hafter
  simp only [Bool.and_eq_true, bne_iff_ne, Bool.or_eq_true, Bool.not_eq_true'] at hnext
  obtain ⟨⟨hcomma, -⟩, htrail⟩ := hnext
  induction h with
  | none =>
    refine .stop ?_
    show (nextKind? rest).any _ = false
    cases hkind : nextKind? rest with
    | none => rfl
    | some kind =>
      rw [hkind] at hcomma
      simpa using hcomma
  | @trail t comma hmay =>
    refine .trail comma ?_
    rw [hmay]
    rcases htrail with hno | hends
    · rw [hmay] at hno
      cases hno
    · exact hends
  | @more t x xs comma element tail ih =>
    obtain ⟨hx, hxs⟩ := hG [_] _ _ (hG [.leaf t] _ _ hgreedy).2
    obtain ⟨t', ts', htokens, hstart⟩ := hfirst element
    simp only [Tree.tokensOfAll, Tree.tokens, List.cons_append, List.nil_append,
      List.append_assoc]
    refine .more comma ?_
      (htakes _ _ _ element hx (Part.follows_of_allows hfollows (tail.next hafter))) (ih hxs)
    -- after the comma there is another element
    rw [Bool.and_eq_false_iff]
    right
    rw [htokens]
    show (!c.startsWith t'.kind) = false
    rw [hstart]
    rfl

theorem Item.Fits.takes {i : Item} {xs : List Tree} (h : i.Fits Q xs)
    {after : Option TokenKind → Bool} (hallows : i.allows may after = true)
    (hi : ∀ ps, i = .optional ps ∨ i = .repeated ps → ps ≠ []) {rest : List Token}
    (hgreedy : G xs rest) (hafter : after (nextKind? rest) = true) :
    TakesItem P i (Tree.tokensOfAll xs ++ rest) xs rest := by
  cases i with
  | one p =>
    obtain ⟨y, rfl, hy⟩ := h
    simp only [Tree.tokensOfAll, List.append_nil]
    exact .one (hy.takes htakes hallows hgreedy hafter)
  | optional ps =>
    obtain ⟨hparts, hstop⟩ := (Bool.and_eq_true _ _).mp hallows
    rcases h with rfl | h
    · have hnone : groupBegins ps (nextKind? rest) = false := by
        simpa using of_all_nextKinds hstop hafter
      exact .absent hnone
    · refine .present ?_ (partsFit_takes hfirst hG htakes h hparts hgreedy hafter)
      exact partsFit_begins hfirst h (hi ps (.inl rfl)) rest
  | repeated ps =>
    obtain ⟨hparts, hstop⟩ := (Bool.and_eq_true _ _).mp hallows
    obtain ⟨groups, rfl, hgroups⟩ := h
    refine .repeated ?_
    induction groups with
    | nil =>
      have hnone : groupBegins ps (nextKind? rest) = false := by
        simpa using of_all_nextKinds hstop hafter
      exact .stop hnone
    | cons g groups ih =>
      obtain ⟨hg, hrest⟩ := List.forall_mem_cons.mp hgroups
      rw [List.flatten_cons] at hgreedy ⊢
      obtain ⟨hgreedy, hgreedy'⟩ := hG _ _ _ hgreedy
      rw [Tree.tokensOfAll_append, List.append_assoc]
      -- after a group comes another one, or what follows the item
      have hnext : (after (nextKind? (Tree.tokensOfAll groups.flatten ++ rest)) ||
          groupBegins ps (nextKind? (Tree.tokensOfAll groups.flatten ++ rest))) = true := by
        cases groups with
        | nil => exact (Bool.or_eq_true _ _).mpr (.inl hafter)
        | cons g' groups =>
          refine (Bool.or_eq_true _ _).mpr (.inr ?_)
          rw [List.flatten_cons, Tree.tokensOfAll_append, List.append_assoc]
          exact partsFit_begins hfirst (hrest g' (List.mem_cons_self ..)) (hi ps (.inr rfl)) _
      exact .more (partsFit_begins hfirst hg (hi ps (.inr rfl)) _)
        (partsFit_takes hfirst hG htakes hg hparts hgreedy hnext) (ih hrest hgreedy')
  | list c shape =>
    have hstop := ((Bool.and_eq_true _ _).mp hallows).2
    have hnext := of_all_nextKinds hstop hafter
    simp only [Bool.and_eq_true, bne_iff_ne, Bool.or_eq_true, Bool.not_eq_true'] at hnext
    obtain ⟨⟨-, hempty⟩, -⟩ := hnext
    refine .list ?_
    rcases h with ⟨he, rfl⟩ | ⟨y, ys, rfl, hy, hys⟩
    · refine .none ?_
      rw [he] at hempty
      show (shape.mayBeEmpty && !(nextKind? rest).any c.startsWith) = true
      rw [he]
      cases hkind : nextKind? rest with
      | none => rfl
      | some kind =>
        rw [hkind] at hempty
        simpa using hempty
    · obtain ⟨hgy, hgys⟩ := hG [_] _ _ hgreedy
      rw [Tree.tokensOfAll, List.append_assoc]
      refine .some ?_ ?_ (hys.takes hfirst hG htakes hallows hgys hafter)
      · have := Part.Fits.next hfirst (p := .phrase c) hy (Tree.tokensOfAll ys ++ rest)
        show (shape.mayBeEmpty && !(nextKind? (y.tokens ++ _)).any c.startsWith) = false
        rw [show ((nextKind? (y.tokens ++ (Tree.tokensOfAll ys ++ rest))).any c.startsWith) = true
          from this, Bool.not_true, Bool.and_false]
      · exact htakes _ _ _ hy hgy (Part.follows_of_allows ((Bool.and_eq_true _ _).mp hallows).1
          (hys.next hafter))

/-- Greedy phrases that fit some items are taken, if each item may be followed by what comes
next. -/
theorem itemsFit_takes {is : List Item}
    (his : ∀ i ∈ is, ∀ ps, i = .optional ps ∨ i = .repeated ps → ps ≠ []) {xs : List Tree}
    (h : itemsFit Q is xs) {after : Option TokenKind → Bool} (hallow : itemsAllow may is after = true)
    {rest : List Token} (hgreedy : G xs rest) (hafter : after (nextKind? rest) = true) :
    TakesItems P is (Tree.tokensOfAll xs ++ rest) xs rest := by
  induction is generalizing xs with
  | nil =>
    rw [show xs = [] from h]
    exact .nil rest
  | cons i is ih =>
    obtain ⟨hi, his⟩ := List.forall_mem_cons.mp his
    obtain ⟨ys, zs, rfl, hys, hzs⟩ := h
    obtain ⟨hallows, hallow⟩ := (Bool.and_eq_true _ _).mp hallow
    obtain ⟨hgys, hgzs⟩ := hG _ _ _ hgreedy
    rw [Tree.tokensOfAll_append, List.append_assoc]
    exact .cons (hys.takes hfirst hG htakes hallows hi hgys (itemsFit_next hfirst his hzs hafter))
      (ih his hzs hallow hgzs)

/-- The same where a group may stand at the end. It may be missing if what follows does not begin
it. -/
theorem itemsFit_takes_optional (parts group : List Part) (absent after : Option TokenKind → Bool)
    (hgroup : group ≠ []) {xs : List Tree}
    (h : itemsFit Q (parts.map .one ++ [.optional group]) xs)
    (hpresent : itemsAllow may (parts.map .one) (groupBegins group) = true)
    (hlast : partsAllow may group after = true)
    (habsent : itemsAllow may (parts.map .one) absent = true) {rest : List Token}
    (hgreedy : G xs rest) (hafter : after (nextKind? rest) = true)
    (hmissing : xs.length = parts.length →
      absent (nextKind? rest) = true ∧ groupBegins group (nextKind? rest) = false) :
    TakesItems P (parts.map .one ++ [.optional group]) (Tree.tokensOfAll xs ++ rest) xs
      rest := by
  obtain ⟨as, bs, rfl, has, hbs⟩ := itemsFit_append.mp h
  have hlength := length_of_itemsFit has
  have hparts : ∀ i ∈ parts.map Item.one, ∀ ps, i = .optional ps ∨ i = .repeated ps → ps ≠ [] := by
    intro i hi ps hps
    obtain ⟨p, -, rfl⟩ := List.mem_map.mp hi
    rcases hps with heq | heq <;> cases heq
  obtain ⟨hgas, hgbs⟩ := hG _ _ _ hgreedy
  rw [Tree.tokensOfAll_append, List.append_assoc]
  obtain ⟨cs, ds, rfl, hcs, hds⟩ := hbs
  cases itemsFit_nil.mp hds
  rw [List.append_nil] at hgas hgbs hmissing ⊢
  rcases hcs with rfl | hcs
  · obtain ⟨hnext, hends⟩ := hmissing (by rw [List.append_nil, hlength])
    refine TakesItems.append (itemsFit_takes hfirst hG htakes hparts has habsent hgas hnext) ?_
    exact .cons (.absent hends) (.nil rest)
  · have hbegins := partsFit_begins hfirst hcs hgroup rest
    refine TakesItems.append (itemsFit_takes hfirst hG htakes hparts has hpresent hgas hbegins) ?_
    have htaken := partsFit_takes hfirst hG htakes hcs hlast hgbs hafter
    have := TakesItems.cons (.present hbegins htaken) (.nil rest)
    rwa [List.append_nil] at this

end Fits

end SuperForward.Script
