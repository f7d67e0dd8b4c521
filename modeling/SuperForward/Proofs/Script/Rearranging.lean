/-
  Every phrase can be made greedy.

  Where a phrase is followed by a token that it could go on with, the token is given to it: an
  `else` moves into the nearest `if`, a member access or arguments into the `new` before them.
  The tokens stay as they are, and so do the category and the tightness of the phrase. What a
  phrase can want is settled by its category, so that nothing else has to be moved.
-/
import SuperForward.Proofs.Script.Accepting

namespace SuperForward.Script

/-! ## The last parts of a node -/

/-- The item may ask for nothing. -/
def Item.mayBeMissing : Item → Bool
  | .one _ => false
  | .optional _ | .repeated _ => true
  | .list _ shape => shape.mayBeEmpty

/-- What the last tree of an item may have to be. -/
def Item.lasts : Item → List Part
  | .one p => [p]
  | .optional ps | .repeated ps => ps.getLast?.toList
  | .list c _ => [.phrase c, .token (.mark .comma)]

/-- What the last tree of some items may have to be. -/
def itemsLasts : List Item → List Part
  | [] => []
  | i :: is => (if is.all Item.mayBeMissing then i.lasts else []) ++ itemsLasts is

section Last

variable {P : Category → Tree → Prop}

theorem Item.Fits.mayBeMissing {i : Item} (h : i.Fits P []) : i.mayBeMissing = true := by
  cases i with
  | one p =>
    obtain ⟨y, hy, -⟩ := h
    cases hy
  | optional ps | repeated ps => rfl
  | list c shape =>
    rcases h with ⟨he, -⟩ | ⟨y, ys, hy, -⟩
    · exact he
    · cases hy

theorem all_mayBeMissing_of_itemsFit {is : List Item} (h : itemsFit P is []) :
    is.all Item.mayBeMissing = true := by
  induction is with
  | nil => rfl
  | cons i is ih =>
    obtain ⟨ys, zs, heq, hys, hzs⟩ := h
    obtain ⟨rfl, rfl⟩ := List.append_eq_nil_iff.mp heq.symm
    exact (Bool.and_eq_true _ _).mpr ⟨hys.mayBeMissing, ih hzs⟩

/-- The last of some parts is one that they may end with, and may be replaced. -/
theorem partsFit_last {ps : List Part} {xs : List Tree} {x : Tree}
    (h : partsFit P ps (xs ++ [x])) : ∃ p ∈ ps.getLast?, p.Fits P x ∧
      ∀ y, p.Fits P y → partsFit P ps (xs ++ [y]) := by
  induction ps generalizing xs with
  | nil => cases (List.append_eq_nil_iff.mp h).2
  | cons p ps ih =>
    obtain ⟨z, zs, heq, hz, hzs⟩ := h
    cases xs with
    | nil =>
      obtain ⟨rfl, rfl⟩ := List.cons.inj heq
      cases ps with
      | nil => exact ⟨p, rfl, hz, fun y hy => ⟨y, [], rfl, hy, rfl⟩⟩
      | cons q ps =>
        obtain ⟨_, _, heq, -⟩ := hzs
        cases heq
    | cons x' xs =>
      obtain ⟨rfl, rfl⟩ := List.cons.inj heq
      obtain ⟨q, hq, hx, hreplace⟩ := ih hzs
      cases ps with
      | nil => cases hq
      | cons p' ps => exact ⟨q, hq, hx, fun y hy => ⟨x', xs ++ [y], rfl, hz, hreplace y hy⟩⟩

theorem MoreFit.last {c : Category} {shape : ListShape} {xs zs : List Tree} {x : Tree}
    (h : MoreFit P c shape zs) (hzs : zs = xs ++ [x]) : ∃ p ∈ (Item.list c shape).lasts,
      p.Fits P x ∧ ∀ y, p.Fits P y → MoreFit P c shape (xs ++ [y]) := by
  induction h generalizing xs with
  | none => cases (List.append_eq_nil_iff.mp hzs.symm).2
  | @trail t comma htrail =>
    obtain ⟨rfl, hx⟩ := List.append_inj' (show [] ++ [_] = xs ++ [x] from hzs) rfl
    obtain ⟨rfl, -⟩ := List.cons.inj hx
    refine ⟨.token (.mark .comma), by simp [Item.lasts], ⟨t, rfl, comma⟩, ?_⟩
    rintro _ ⟨u, rfl, hu⟩
    exact .trail hu htrail
  | @more t z zs comma element tail ih =>
    rcases List.eq_nil_or_concat zs with rfl | ⟨zs, w, rfl⟩
    · obtain ⟨rfl, hx⟩ := List.append_inj' (show [_] ++ [_] = xs ++ [x] from hzs) rfl
      obtain ⟨rfl, -⟩ := List.cons.inj hx
      exact ⟨.phrase c, by simp [Item.lasts], element, fun y hy => .more comma hy .none⟩
    · rw [List.concat_eq_append] at hzs
      obtain ⟨rfl, hx⟩ := List.append_inj' (show (_ :: _ :: zs) ++ [_] = xs ++ [x] from hzs) rfl
      obtain ⟨rfl, -⟩ := List.cons.inj hx
      obtain ⟨p, hp, hx, hreplace⟩ := ih (List.concat_eq_append ..)
      exact ⟨p, hp, hx, fun y hy => .more comma element (hreplace y hy)⟩

theorem Item.Fits.last {i : Item} {xs : List Tree} {x : Tree} (h : i.Fits P (xs ++ [x])) :
    ∃ p ∈ i.lasts, p.Fits P x ∧ ∀ y, p.Fits P y → i.Fits P (xs ++ [y]) := by
  cases i with
  | one p =>
    obtain ⟨y, hy, hp⟩ := h
    obtain ⟨rfl, hx⟩ := List.append_inj' (show xs ++ [x] = [] ++ [y] from hy) rfl
    obtain ⟨rfl, -⟩ := List.cons.inj hx
    exact ⟨p, List.mem_singleton_self p, hp, fun y hy => ⟨y, rfl, hy⟩⟩
  | optional ps =>
    rcases h with h | h
    · cases (List.append_eq_nil_iff.mp h).2
    · obtain ⟨p, hp, hx, hreplace⟩ := partsFit_last h
      exact ⟨p, Option.mem_toList.mpr hp, hx, fun y hy => .inr (hreplace y hy)⟩
  | repeated ps =>
    obtain ⟨groups, hgroups, hfits⟩ := h
    induction groups generalizing xs with
    | nil => cases (List.append_eq_nil_iff.mp hgroups).2
    | cons g groups ih =>
      obtain ⟨hg, hrest⟩ := List.forall_mem_cons.mp hfits
      rw [List.flatten_cons] at hgroups
      rcases List.eq_nil_or_concat groups.flatten with hnil | ⟨zs, z, hzs⟩
      · -- the group is the last one with a tree in it
        rw [hnil, List.append_nil] at hgroups
        subst hgroups
        obtain ⟨p, hp, hx, hreplace⟩ := partsFit_last hg
        refine ⟨p, Option.mem_toList.mpr hp, hx, fun y hy => ⟨[xs ++ [y]], by simp, ?_⟩⟩
        exact List.forall_mem_singleton.mpr (hreplace y hy)
      · rw [hzs, List.concat_eq_append, ← List.append_assoc] at hgroups
        obtain ⟨rfl, hx⟩ := List.append_inj' hgroups rfl
        obtain ⟨rfl, -⟩ := List.cons.inj hx
        rw [List.concat_eq_append] at hzs
        obtain ⟨p, hp, hx, hreplace⟩ := ih hzs.symm hrest
        refine ⟨p, hp, hx, fun y hy => ?_⟩
        obtain ⟨groups', hgroups', hfits'⟩ := hreplace y hy
        refine ⟨g :: groups', ?_, List.forall_mem_cons.mpr ⟨hg, hfits'⟩⟩
        rw [List.flatten_cons, ← hgroups', List.append_assoc]
  | list c shape =>
    rcases h with ⟨-, h⟩ | ⟨z, zs, heq, hz, hzs⟩
    · cases (List.append_eq_nil_iff.mp h).2
    · cases xs with
      | nil =>
        obtain ⟨rfl, rfl⟩ := List.cons.inj heq
        exact ⟨.phrase c, List.mem_cons_self .., hz, fun y hy => .inr ⟨y, [], rfl, hy, .none⟩⟩
      | cons x' xs =>
        obtain ⟨rfl, hrest⟩ := List.cons.inj heq
        obtain ⟨p, hp, hx, hreplace⟩ := hzs.last hrest.symm
        exact ⟨p, hp, hx, fun y hy => .inr ⟨x', xs ++ [y], rfl, hz, hreplace y hy⟩⟩

/-- The last part of a node is something that its rule may end with, and may be replaced. -/
theorem itemsFit_last {is : List Item} {xs : List Tree} {x : Tree}
    (h : itemsFit P is (xs ++ [x])) : ∃ p ∈ itemsLasts is, p.Fits P x ∧
      ∀ y, p.Fits P y → itemsFit P is (xs ++ [y]) := by
  induction is generalizing xs with
  | nil => cases (List.append_eq_nil_iff.mp h).2
  | cons i is ih =>
    obtain ⟨ys, zs, heq, hys, hzs⟩ := h
    rcases List.eq_nil_or_concat zs with rfl | ⟨zs, z, rfl⟩
    · rw [List.append_nil] at heq
      subst heq
      obtain ⟨p, hp, hx, hreplace⟩ := hys.last
      refine ⟨p, List.mem_append_left _ ?_, hx, fun y hy => ?_⟩
      · rwa [if_pos (all_mayBeMissing_of_itemsFit hzs)]
      · exact ⟨xs ++ [y], [], (List.append_nil _).symm, hreplace y hy, hzs⟩
    · rw [List.concat_eq_append, ← List.append_assoc] at heq
      obtain ⟨rfl, hx⟩ := List.append_inj' heq rfl
      obtain ⟨rfl, -⟩ := List.cons.inj hx
      rw [List.concat_eq_append] at hzs
      obtain ⟨p, hp, hx, hreplace⟩ := ih hzs
      exact ⟨p, List.mem_append_right _ hp, hx, fun y hy =>
        ⟨ys, zs ++ [y], List.append_assoc .., hys, hreplace y hy⟩⟩

end Last

/-! ## What phrases can want -/

/-- A phrase of the category may end with something that could go on with the token. -/
def Category.wants : Category → TokenKind → Bool
  | .statement, kind | .switchCase, kind => kind == .keyword .elseKw
  | .expression .., kind | .primary _, kind | .argument, kind | .property, kind
  | .declarator, kind | .params, kind | .param, kind | .forInit, kind =>
    kind == .mark .dot || kind == .mark .lparen
  | _, _ => false

/-- The part may end with something that could go on with the token. -/
def Part.wants : Part → TokenKind → Bool
  | .token _, _ => false
  | .phrase c, kind => c.wants kind

/-- A node of the rule may itself go on with the token. -/
def Rule.mayWant (r : Rule) (kind : TokenKind) : Bool := r.wants 5 kind || r.wants 2 kind

theorem Rule.mayWant_of_wants {r : Rule} {n : Nat} {kind : TokenKind}
    (h : r.wants n kind = true) : r.mayWant kind = true := by
  unfold wants at h
  split at h
  · rfl
  · rfl
  · rfl
  · cases h

theorem lastWants_append (xs : List Tree) (x : Tree) (kind : TokenKind) :
    lastWants (xs ++ [x]) kind = x.wants kind := by
  induction xs with
  | nil => rfl
  | cons y ys ih =>
    rw [List.cons_append, lastWants, if_neg (by simp), ih]

/-- If the last of some trees wants a token, there is a last one. -/
theorem exists_of_lastWants {xs : List Tree} {kind : TokenKind} (h : lastWants xs kind = true) :
    ∃ ys y, xs = ys ++ [y] ∧ y.wants kind = true := by
  rcases List.eq_nil_or_concat xs with rfl | ⟨ys, y, rfl⟩
  · cases h
  · rw [List.concat_eq_append] at h ⊢
    exact ⟨ys, y, rfl, (lastWants_append ys y kind).symm.trans h⟩

/-- What the last part of a node wants, the rule may end with. -/
theorem lasts_wants {P : Category → Tree → Prop}
    (hP : ∀ {c x kind}, P c x → x.wants kind = true → c.wants kind = true) {is : List Item}
    {xs : List Tree} (h : itemsFit P is xs) {kind : TokenKind} (hwants : lastWants xs kind = true) :
    (itemsLasts is).any (·.wants kind) = true := by
  obtain ⟨ys, y, rfl, hy⟩ := exists_of_lastWants hwants
  obtain ⟨p, hp, hfits, -⟩ := itemsFit_last h
  refine List.any_eq_true.mpr ⟨p, hp, ?_⟩
  cases p with
  | token kind =>
    obtain ⟨t, rfl, -⟩ := hfits
    cases hy
  | phrase c => exact hP hfits hy

/-- The rule may end with something that could go on with the token, or could itself. -/
def Rule.endWants (r : Rule) (kind : TokenKind) : Bool :=
  r.mayWant kind || (itemsLasts r.items).any (·.wants kind)

theorem Category.wants_of_predict {c : Category} {ahead : List TokenKind} {r : Rule}
    (h : c.predict ahead = some (.rule r)) {kind : TokenKind} (hr : r.endWants kind = true) :
    c.wants kind = true := by
  have hall := of_predict (fun c r => TokenKind.all.all fun kind =>
    !r.endWants kind || c.wants kind) (by decide) h
  have := List.all_eq_true.mp hall kind (TokenKind.mem_all kind)
  rw [hr] at this
  exact this

theorem Category.wants_of_extension {c : Category} {rank : Rank} {kind : TokenKind} {r : Rule}
    (h : c.extension rank kind = some r) {next : TokenKind} (hr : r.endWants next = true) :
    c.wants next = true := by
  have hall : ∀ r ∈ extendingRules, (TokenKind.all.all fun kind =>
      !r.endWants kind || (r != .getProp && (kind == .mark .dot || kind == .mark .lparen))) = true := by
    decide
  have := List.all_eq_true.mp (hall r (extension_eq h).1) next (TokenKind.mem_all next)
  rw [hr] at this
  obtain ⟨hprop, hkind⟩ := (Bool.and_eq_true _ _).mp this
  rcases (extension_eq h).2 with ⟨limit, lead, rfl⟩ | rfl
  · exact hkind
  · cases extension_newTarget h
    cases hprop

/-- A phrase wants only what its category may want. -/
theorem Formed.wants {depth : Nat} {c : Category} {x : Tree} (h : Formed depth c x)
    {kind : TokenKind} (hwants : x.wants kind = true) : c.wants kind = true := by
  induction depth generalizing c x kind with
  | zero => exact h.elim
  | succ depth ih =>
    induction h with
    | token => cases hwants
    | through predicted inner =>
      have hd := ih inner hwants
      have hnarrower := Category.narrower_of_predict predicted
      cases c with
      | expression limit lead => cases hnarrower; exact hd
      | argument => cases hnarrower; exact hd
      | propertyKey => cases hnarrower; exact hd
      | _ => cases hnarrower
    | @rule r ahead xs predicted items =>
      refine Category.wants_of_predict predicted ((Bool.or_eq_true _ _).mpr ?_)
      exact ((Bool.or_eq_true _ _).mp hwants).imp Rule.mayWant_of_wants
        (lasts_wants (fun h hw => ih h hw) items)
    | @extended x r kind' xs inner extension items ih' =>
      rcases (Bool.or_eq_true _ _).mp hwants with hown | hlast
      · rw [Rule.wants_of_extending (Category.extension_eq extension).1] at hown
        cases hown
      · rcases List.eq_nil_or_concat xs with rfl | ⟨ys, y, rfl⟩
        · exact ih' hlast
        · rw [List.concat_eq_append] at hlast items
          rw [← List.cons_append, lastWants_append, ← lastWants_append ys] at hlast
          exact Category.wants_of_extension extension ((Bool.or_eq_true _ _).mpr
            (.inr (lasts_wants (fun h hw => ih h hw) items hlast)))

theorem Formable.wants {c : Category} {x : Tree} (h : Formable c x) {kind : TokenKind}
    (hwants : x.wants kind = true) : c.wants kind = true := by
  obtain ⟨depth, h⟩ := h
  exact h.wants hwants

/-! ## Rearranging the parts of a node -/

section Parts

/- Every phrase inside can be replaced by one with the same tokens. -/
variable {P Q : Category → Tree → Prop}
  (hPQ : ∀ c x, P c x → ∃ y, Q c y ∧ y.tokens = x.tokens)
include hPQ

theorem Part.Fits.rearranged {p : Part} {x : Tree} (h : p.Fits P x) :
    ∃ y, p.Fits Q y ∧ y.tokens = x.tokens := by
  cases p with
  | token kind => exact ⟨x, h, rfl⟩
  | phrase c => exact hPQ c x h

theorem partsFit_rearranged {ps : List Part} {xs : List Tree} (h : partsFit P ps xs) :
    ∃ ys, partsFit Q ps ys ∧ Tree.tokensOfAll ys = Tree.tokensOfAll xs := by
  induction ps generalizing xs with
  | nil => exact ⟨xs, h, rfl⟩
  | cons p ps ih =>
    obtain ⟨x, xs, rfl, hx, hxs⟩ := h
    obtain ⟨y, hy, hytokens⟩ := hx.rearranged hPQ
    obtain ⟨ys, hys, hystokens⟩ := ih hxs
    refine ⟨y :: ys, ⟨y, ys, rfl, hy, hys⟩, ?_⟩
    rw [Tree.tokensOfAll, Tree.tokensOfAll, hytokens, hystokens]

theorem MoreFit.rearranged {c : Category} {shape : ListShape} {xs : List Tree}
    (h : MoreFit P c shape xs) :
    ∃ ys, MoreFit Q c shape ys ∧ Tree.tokensOfAll ys = Tree.tokensOfAll xs := by
  induction h with
  | none => exact ⟨[], .none, rfl⟩
  | trail comma h => exact ⟨_, .trail comma h, rfl⟩
  | more comma element _ ih =>
    obtain ⟨y, hy, hytokens⟩ := hPQ _ _ element
    obtain ⟨ys, hys, hystokens⟩ := ih
    refine ⟨_, .more comma hy hys, ?_⟩
    simp only [Tree.tokensOfAll, hytokens, hystokens]

theorem Item.Fits.rearranged {i : Item} {xs : List Tree} (h : i.Fits P xs) :
    ∃ ys, i.Fits Q ys ∧ Tree.tokensOfAll ys = Tree.tokensOfAll xs := by
  cases i with
  | one p =>
    obtain ⟨x, rfl, hx⟩ := h
    obtain ⟨y, hy, htokens⟩ := hx.rearranged hPQ
    exact ⟨[y], ⟨y, rfl, hy⟩, by simp only [Tree.tokensOfAll, htokens]⟩
  | optional ps =>
    rcases h with rfl | h
    · exact ⟨[], .inl rfl, rfl⟩
    · exact (partsFit_rearranged hPQ h).imp fun ys => And.imp_left .inr
  | repeated ps =>
    obtain ⟨groups, rfl, hgroups⟩ := h
    induction groups with
    | nil => exact ⟨[], ⟨[], rfl, fun g hg => absurd hg List.not_mem_nil⟩, rfl⟩
    | cons g groups ih =>
      obtain ⟨hg, hrest⟩ := List.forall_mem_cons.mp hgroups
      obtain ⟨ys, hys, hystokens⟩ := partsFit_rearranged hPQ hg
      obtain ⟨_, ⟨groups', rfl, hgroups'⟩, htokens⟩ := ih hrest
      refine ⟨ys ++ groups'.flatten, ⟨ys :: groups', rfl, List.forall_mem_cons.mpr
        ⟨hys, hgroups'⟩⟩, ?_⟩
      rw [List.flatten_cons, Tree.tokensOfAll_append, Tree.tokensOfAll_append, hystokens, htokens]
  | list c shape =>
    rcases h with ⟨he, rfl⟩ | ⟨x, xs, rfl, hx, hxs⟩
    · exact ⟨[], .inl ⟨he, rfl⟩, rfl⟩
    · obtain ⟨y, hy, hytokens⟩ := hPQ c x hx
      obtain ⟨ys, hys, hystokens⟩ := hxs.rearranged hPQ
      refine ⟨y :: ys, .inr ⟨y, ys, rfl, hy, hys⟩, ?_⟩
      rw [Tree.tokensOfAll, Tree.tokensOfAll, hytokens, hystokens]

theorem itemsFit_rearranged {is : List Item} {xs : List Tree} (h : itemsFit P is xs) :
    ∃ ys, itemsFit Q is ys ∧ Tree.tokensOfAll ys = Tree.tokensOfAll xs := by
  induction is generalizing xs with
  | nil => exact ⟨xs, h, rfl⟩
  | cons i is ih =>
    obtain ⟨xs, zs, rfl, hxs, hzs⟩ := h
    obtain ⟨ys, hys, hystokens⟩ := hxs.rearranged hPQ
    obtain ⟨ws, hws, hwstokens⟩ := ih hzs
    refine ⟨ys ++ ws, ⟨ys, ws, rfl, hys, hws⟩, ?_⟩
    rw [Tree.tokensOfAll_append, Tree.tokensOfAll_append, hystokens, hwstokens]

end Parts

/-! ## Greedy phrases next to each other -/

/-- A greedy phrase of the category. -/
def GreedyPhrase (c : Category) (x : Tree) : Prop := Formable c x ∧ x.Greedy

theorem Formable.first {c : Category} {x : Tree} (h : Formable c x) :
    ∃ t ts, x.tokens = t :: ts ∧ c.startsWith t.kind = true := by
  obtain ⟨depth, h⟩ := h
  exact h.first

theorem greedyBefore_singleton_of_wants {c : Category} {x : Tree} (h : GreedyPhrase c x)
    {ts : List Token} (hts : ∀ kind ∈ nextKind? ts, (!c.wants kind) = true) :
    GreedyBefore [x] ts := by
  refine greedyBefore_singleton.mpr ⟨h.2, fun t ht => ?_⟩
  have hnot := hts t.kind (mem_nextKind?.mpr ⟨t, ht, rfl⟩)
  rw [← Bool.not_eq_true]
  intro hwants
  rw [h.1.wants hwants] at hnot
  cases hnot

/-- Greedy phrases are greedy one after the other, if none of them can want what comes next. -/
theorem greedyBefore_of_itemsFit {is : List Item}
    (his : ∀ i ∈ is, ∀ ps, i = .optional ps ∨ i = .repeated ps → ps ≠ [])
    (hallow : itemsAllow (fun c kind => !c.wants kind) is Option.isNone = true)
    {xs : List Tree} (hxs : itemsFit GreedyPhrase is xs) : GreedyBefore xs [] := by
  have htakes : TakesItems (fun _ ts x rest => ts = x.tokens ++ rest ∧ GreedyBefore [x] rest) is
      (Tree.tokensOfAll xs ++ []) xs [] :=
    itemsFit_takes (G := fun _ _ => True) (fun h => h.1.first) (fun _ _ _ _ => ⟨trivial, trivial⟩)
      (fun _ _ _ h _ hts => ⟨rfl, greedyBefore_singleton_of_wants h hts⟩) his hxs hallow trivial rfl
  exact htakes.greedy (fun h => h.2) (fun h => h.1)

/-- Every rule. -/
def Rule.all : List Rule :=
  Category.all.flatMap Category.rules ++ extendingRules

theorem Rule.mem_all (r : Rule) : r ∈ all := by
  cases r <;> decide

theorem Rule.itemsAllow_wants {r : Rule} (hr : r ≠ .ifStatement) :
    itemsAllow (fun c kind => !c.wants kind) r.items Option.isNone = true := by
  have hall : ∀ r ∈ all, r ≠ .ifStatement →
      itemsAllow (fun c kind => !c.wants kind) r.items Option.isNone = true := by
    decide +kernel
  exact hall r (mem_all r) hr

/-- The head of what follows decides whether phrases are greedy there. -/
theorem GreedyBefore.of_head? {xs : List Tree} {ts ts' : List Token} (h : GreedyBefore xs ts)
    (hhead : ts.head? = ts'.head?) : GreedyBefore xs ts' := by
  induction xs with
  | nil => trivial
  | cons x xs ih =>
    refine ⟨h.1, ?_, ih h.2.2⟩
    rw [List.head?_append, ← hhead, ← List.head?_append]
    exact h.2.1

/-- The last of some greedy phrases may grow at its end. -/
theorem GreedyBefore.grow_last {xs : List Tree} {x y : Tree} (h : GreedyBefore (xs ++ [x]) [])
    (hx : x.tokens ≠ []) (hy : y.Greedy) {ts : List Token} (htokens : y.tokens = x.tokens ++ ts) :
    GreedyBefore (xs ++ [y]) [] := by
  obtain ⟨hxs, -⟩ := greedyBefore_append.mp h
  refine greedyBefore_append.mpr ⟨hxs.of_head? ?_, greedyBefore_singleton.mpr ⟨hy, by simp⟩⟩
  simp only [Tree.tokensOfAll, List.append_nil]
  rw [htokens, List.head?_append_of_ne_nil _ hx]

/-! ## Giving an `else` to the nearest `if` -/

/-- What an `if` asks for before an `else`. -/
def ifParts : List Part :=
  [.token (.keyword .ifKw), .token (.mark .lparen), .phrase .anyExpression,
    .token (.mark .rparen), .phrase .statement]

/-- An `else` with its statement. -/
def elseParts : List Part := [.token (.keyword .elseKw), .phrase .statement]

/-- An `if` has an `else` or not. -/
theorem itemsFit_ifStatement {P : Category → Tree → Prop} {xs : List Tree} :
    itemsFit P Rule.ifStatement.items xs ↔ ∃ ys zs, xs = ys ++ zs ∧
      itemsFit P (ifParts.map .one) ys ∧ (zs = [] ∨ partsFit P elseParts zs) := by
  have hitems : Rule.ifStatement.items = ifParts.map .one ++ [.optional elseParts] := rfl
  rw [hitems, itemsFit_append]
  constructor
  · rintro ⟨ys, _, rfl, hys, zs, _, rfl, hzs, rfl⟩
    exact ⟨ys, zs, by rw [List.append_nil], hys, hzs⟩
  · rintro ⟨ys, zs, rfl, hys, hzs⟩
    exact ⟨ys, zs, rfl, hys, zs, [], (List.append_nil zs).symm, hzs, rfl⟩

theorem Formable.ifStatement {xs : List Tree} (h : itemsFit Formable Rule.ifStatement.items xs) :
    Formable .statement (.node .ifStatement xs) :=
  formable_iff.mpr (.rule (show Category.statement.predict [.keyword .ifKw] = _ from rfl) h)

/-- What a statement ends with that wants an `else` is a statement. -/
theorem lasts_of_wants_else {r : Rule} (hr : r ∈ Category.statement.rules) {p : Part}
    (hp : p ∈ itemsLasts r.items) (hwants : p.wants (.keyword .elseKw) = true) :
    p = .phrase .statement := by
  have hall : ∀ r ∈ Category.statement.rules, ∀ p ∈ itemsLasts r.items,
      p.wants (.keyword .elseKw) = true → p = .phrase .statement := by
    decide
  exact hall r hr p hp hwants

theorem Rule.wants_else {r : Rule} {n : Nat} (h : r.wants n (.keyword .elseKw) = true) :
    r = .ifStatement ∧ n = 5 := by
  unfold wants at h
  split at h
  · exact ⟨rfl, rfl⟩
  · next heq => cases heq
  · next heq => cases heq
  · cases h

/-- What an `else` with its statement looks like. -/
theorem eq_of_elseParts {P : Category → Tree → Prop} {zs : List Tree}
    (h : partsFit P elseParts zs) :
    ∃ t s, zs = [.leaf t, s] ∧ t.kind = .keyword .elseKw ∧ P .statement s := by
  obtain ⟨_, _, rfl, ⟨t, rfl, ht⟩, s, _, rfl, hs, rfl⟩ := h
  exact ⟨t, s, rfl, ht, hs⟩

theorem tokens_ne_nil_of_formable {is : List Item} {xs : List Tree}
    (h : itemsFit Formable is xs) : ∀ x ∈ xs, x.tokens ≠ [] := by
  obtain ⟨depth, h⟩ := itemsFit_bounded h
  exact tokens_ne_nil_of_items h

/-- An `if` without an `else` takes one that nothing in it wants. -/
theorem greedyBefore_else {xs zs : List Tree} (hxs : GreedyBefore xs [])
    (hne : ∀ x ∈ xs, x.tokens ≠ []) (hwants : lastWants xs (.keyword .elseKw) = false)
    (hzs : partsFit GreedyPhrase elseParts zs) : GreedyBefore (xs ++ zs) [] := by
  obtain ⟨t, s, rfl, ht, hs⟩ := eq_of_elseParts hzs
  refine greedyBefore_append.mpr ⟨hxs.before hne fun u hu => ?_, trivial, fun _ _ => rfl,
    greedyBefore_singleton.mpr ⟨hs.2, by simp⟩⟩
  cases hu
  rw [ht]
  exact hwants

theorem partsFit_formable {ps : List Part} {xs : List Tree} (h : partsFit GreedyPhrase ps xs) :
    partsFit Formable ps xs :=
  partsFit_mono (fun _ _ _ hx => hx.1) h

/-- An `else` with its statement goes to the statement before it that wants it. -/
theorem GreedyPhrase.attach {x : Tree} (h : GreedyPhrase .statement x)
    (hwants : x.wants (.keyword .elseKw) = true) {zs : List Tree}
    (hzs : partsFit GreedyPhrase elseParts zs) :
    ∃ y, GreedyPhrase .statement y ∧ y.tokens = x.tokens ++ Tree.tokensOfAll zs := by
  induction x using Tree.induction_on with
  | leaf t => cases hwants
  | node r xs ih =>
    obtain ⟨hx, hgreedy⟩ := h
    have hxs : GreedyBefore xs [] := hgreedy
    cases formable_iff.mp hx with
    | through predicted => cases Category.narrower_of_predict predicted
    | extended _ extension => rcases (Category.extension_eq extension).2 with ⟨_, _, heq⟩ | heq <;>
        cases heq
    | @rule _ ahead _ predicted items =>
      have hmem := Category.rule_mem_of_predict predicted
      cases hlast : lastWants xs (.keyword .elseKw) with
      | true =>
        -- it goes to the last statement inside
        obtain ⟨ys, y, rfl, hy⟩ := exists_of_lastWants hlast
        obtain ⟨p, hp, hfits, hreplace⟩ := itemsFit_last items
        obtain rfl : p = .phrase .statement := by
          refine lasts_of_wants_else hmem hp ?_
          cases p with
          | token kind =>
            obtain ⟨t, rfl, -⟩ := hfits
            cases hy
          | phrase c => exact Formable.wants hfits hy
        have hmem : y ∈ ys ++ [y] := List.mem_append_right _ (List.mem_singleton_self y)
        obtain ⟨y', ⟨hy', hgreedy'⟩, htokens⟩ := ih y hmem ⟨hfits, hxs.mem y hmem⟩ hy
        refine ⟨.node r (ys ++ [y']), ⟨formable_iff.mpr (.rule predicted (hreplace y' hy')), ?_⟩, ?_⟩
        · exact hxs.grow_last (tokens_ne_nil_of_formable items y hmem) hgreedy' htokens
        · simp only [Tree.tokens, Tree.tokensOfAll_append, Tree.tokensOfAll, htokens,
            List.append_nil, List.append_assoc]
      | false =>
        -- it goes to the `if` itself
        have hown : r.wants xs.length (.keyword .elseKw) = true := by
          have := (Bool.or_eq_true _ _).mp hwants
          rwa [hlast, or_iff_left Bool.false_ne_true] at this
        obtain ⟨rfl, hlength⟩ := Rule.wants_else hown
        obtain ⟨ys, ws, rfl, hys, hws⟩ := itemsFit_ifStatement.mp items
        have hws : ws = [] := by
          rcases hws with hws | hws
          · exact hws
          · obtain ⟨t, s, rfl, -⟩ := eq_of_elseParts hws
            have := length_of_itemsFit hys
            simp [ifParts] at this hlength
            omega
        subst hws
        rw [List.append_nil] at hxs hlast
        refine ⟨.node .ifStatement (ys ++ zs), ⟨Formable.ifStatement
          (itemsFit_ifStatement.mpr ⟨ys, zs, rfl, hys, .inr (partsFit_formable hzs)⟩), ?_⟩, ?_⟩
        · exact greedyBefore_else hxs (tokens_ne_nil_of_formable hys) hlast hzs
        · simp only [Tree.tokens, Tree.tokensOfAll_append, List.append_nil]

/-- The parts of an `if` can be rearranged so that it is greedy. -/
theorem exists_greedy_ifStatement {xs : List Tree}
    (h : itemsFit GreedyPhrase Rule.ifStatement.items xs) :
    ∃ ys, itemsFit GreedyPhrase Rule.ifStatement.items ys ∧ GreedyBefore ys [] ∧
      Tree.tokensOfAll ys = Tree.tokensOfAll xs := by
  obtain ⟨ys, zs, rfl, hys, hzs⟩ := itemsFit_ifStatement.mp h
  have hgreedy : GreedyBefore ys [] := by
    refine greedyBefore_of_itemsFit ?_ (by decide) hys
    intro i hi ps hps
    obtain ⟨p, -, rfl⟩ := List.mem_map.mp hi
    rcases hps with heq | heq <;> cases heq
  rcases hzs with rfl | hzs
  · exact ⟨ys ++ [], h, by rwa [List.append_nil], rfl⟩
  have hformable : itemsFit Formable (ifParts.map .one) ys := itemsFit_mono (fun _ _ _ hx => hx.1) hys
  have hne := tokens_ne_nil_of_formable hformable
  cases hlast : lastWants ys (.keyword .elseKw) with
  | false => exact ⟨ys ++ zs, h, greedyBefore_else hgreedy hne hlast hzs, rfl⟩
  | true =>
    obtain ⟨ws, w, rfl, hw⟩ := exists_of_lastWants hlast
    obtain ⟨p, hp, hfits, hreplace⟩ := itemsFit_last hys
    obtain rfl : p = .phrase .statement := by
      simpa [itemsLasts, ifParts, Item.mayBeMissing, Item.lasts] using hp
    obtain ⟨w', hw', htokens⟩ := GreedyPhrase.attach hfits hw hzs
    refine ⟨(ws ++ [w']) ++ [], itemsFit_ifStatement.mpr ⟨ws ++ [w'], [], rfl, hreplace w' hw',
      .inl rfl⟩, ?_, ?_⟩
    · rw [List.append_nil]
      exact hgreedy.grow_last (hne w (List.mem_append_right _ (List.mem_singleton_self w))) hw'.2
        htokens
    · simp only [Tree.tokensOfAll_append, Tree.tokensOfAll, htokens, List.append_nil,
        List.append_assoc]

/-! ## Giving member accesses and arguments to a `new` -/

/-- An expression that is as tight as can be and wants a token is a `new` without arguments. -/
theorem Formable.eq_new_of_wants {limit : Rank} {lead : Lead} {x : Tree}
    (h : Formable (.expression limit lead) x) (hrank : x.rank = .member) {kind : TokenKind}
    (hwants : x.wants kind = true) :
    ∃ t y, x = .node .newExpression [.leaf t, y] ∧ t.kind = .keyword .newKw ∧
      Formable .newTarget y := by
  -- what stands last in these rules wants nothing, so only the phrase itself can, and only one
  -- rule does
  have hprimary : ∀ r ∈ primaryRules, ∀ kind ∈ TokenKind.all,
      (itemsLasts r.items).any (·.wants kind) = false ∧
        (r ≠ .newExpression → r.mayWant kind = false) := by
    decide
  have hextending : ∀ r ∈ extendingRules, r.rank = .member → ∀ kind ∈ TokenKind.all,
      (itemsLasts r.items).any (·.wants kind) = false := by
    decide
  cases formable_iff.mp h with
  | token => cases hwants
  | rule predicted items =>
    obtain ⟨rfl, -⟩ := Category.fits_of_predict predicted
    cases hrank
  | @extended x r kind' xs inner extension items =>
    obtain ⟨hr, -⟩ := Category.extension_eq extension
    have hlast := (Bool.or_eq_true _ _).mp hwants
    rw [Rule.wants_of_extending hr, or_iff_right Bool.false_ne_true] at hlast
    rcases List.eq_nil_or_concat xs with rfl | ⟨ys, y, rfl⟩
    · obtain ⟨t, ts, htokens, -⟩ := Rule.first_of_extending (fun h => h.first) hr items
      cases htokens
    · rw [List.concat_eq_append] at hlast items
      rw [← List.cons_append, lastWants_append, ← lastWants_append ys] at hlast
      have := lasts_wants (fun h hw => h.wants hw) items hlast
      rw [hextending r hr hrank kind (TokenKind.mem_all kind)] at this
      cases this
  | through predicted inner =>
    cases Category.narrower_of_predict predicted
    cases formable_iff.mp inner with
    | token => cases hwants
    | through predicted => cases Category.narrower_of_predict predicted
    | extended _ extension => rcases (Category.extension_eq extension).2 with ⟨_, _, heq⟩ | heq <;>
        cases heq
    | @rule r ahead xs predicted items =>
      have hr := hprimary r (Category.rule_mem_of_predict predicted) kind (TokenKind.mem_all kind)
      rcases (Bool.or_eq_true _ _).mp hwants with hown | hlast
      · obtain rfl : r = .newExpression := by
          by_contra hne
          rw [Rule.mayWant_of_wants hown] at hr
          exact Bool.false_ne_true (hr.2 hne).symm
        obtain ⟨_, ys, rfl, ⟨t, rfl, ht⟩, hys⟩ := itemsFit_one.mp items
        obtain ⟨y, zs, rfl, hy, hzs⟩ := itemsFit_one.mp hys
        rcases itemsFit_optional.mp hzs with hzs | ⟨z, ws, rfl, -, hws⟩
        · cases itemsFit_nil.mp hzs
          exact ⟨t, y, rfl, ht, hy⟩
        · cases itemsFit_nil.mp hws
          cases hown
      · exact absurd (hr.1.symm.trans (lasts_wants (fun h hw => h.wants hw) items hlast))
          Bool.false_ne_true

section Extend

variable {c : Category} {x : Tree} {r : Rule} {xs : List Tree}

/-- A greedy phrase is extended by what it does not want. -/
theorem GreedyPhrase.extended (h : GreedyPhrase c x) {kind : TokenKind}
    (hextension : c.extension x.rank kind = some r) (hxs : itemsFit GreedyPhrase r.items xs)
    (hwants : ∀ t ∈ (Tree.tokensOfAll xs).head?, x.wants t.kind = false) :
    GreedyPhrase c (.node r (x :: xs)) := by
  have hgreedy : GreedyBefore xs [] := by
    refine greedyBefore_of_itemsFit r.groups_ne_nil (Rule.itemsAllow_wants ?_) hxs
    rintro rfl
    exact absurd (Category.extension_eq hextension).1 (by decide)
  refine ⟨formable_iff.mpr (.extended (formable_iff.mp h.1) hextension
    (itemsFit_mono (fun _ _ _ hx => hx.1) hxs)), h.2, ?_, hgreedy⟩
  rwa [List.append_nil]

/-- A greedy `new` is an expression, however tight expressions have to be. -/
theorem greedyPhrase_newExpression (limit : Rank) (lead : Lead) {ys : List Tree}
    (h : itemsFit GreedyPhrase Rule.newExpression.items ys) :
    GreedyPhrase (.expression limit lead) (.node .newExpression ys) := by
  have hthrough : (Category.expression limit lead).predict [.keyword .newKw]
      = some (.through (.primary lead)) := by
    cases limit <;> cases lead <;> rfl
  have hrule : (Category.primary lead).predict [.keyword .newKw]
      = some (.rule .newExpression) := by
    cases lead <;> rfl
  exact ⟨formable_iff.mpr (.through hthrough (formable_iff.mpr (.rule hrule
    (itemsFit_mono (fun _ _ _ hx => hx.1) h)))),
    greedyBefore_of_itemsFit Rule.newExpression.groups_ne_nil
      (Rule.itemsAllow_wants (by decide)) h⟩

/-- A `new` without arguments takes the member access or the arguments that follow it. -/
theorem exists_greedy_newExpression (limit : Rank) (lead : Lead) {t u : Token} {y : Tree}
    (ht : t.kind = .keyword .newKw) (hy : GreedyPhrase .newTarget y)
    (hu : u.kind = .mark .dot ∨ u.kind = .mark .lparen) (hrule : u.kind.extendingRule? = some r)
    (hxs : itemsFit GreedyPhrase r.items xs) {ts : List Token}
    (htokens : Tree.tokensOfAll xs = u :: ts) :
    ∃ z, GreedyPhrase (.expression limit lead) z ∧
      z.tokens = t :: y.tokens ++ Tree.tokensOfAll xs ∧ z.rank = r.rank := by
  rcases hu with hu | hu
  · -- a member access goes to the target
    rw [hu] at hrule
    cases hrule
    have hextended : GreedyPhrase .newTarget (.node .getProp (y :: xs)) := by
      refine hy.extended (show Category.newTarget.extension y.rank (.mark .dot) = _ from rfl) hxs
        fun v _ => ?_
      rw [← Bool.not_eq_true]
      exact fun hwants => Bool.false_ne_true (hy.1.wants hwants)
    refine ⟨.node .newExpression [.leaf t, .node .getProp (y :: xs)],
      greedyPhrase_newExpression limit lead (itemsFit_one.mpr ⟨_, _, rfl, ⟨t, rfl, ht⟩,
        itemsFit_one.mpr ⟨_, _, rfl, hextended, itemsFit_optional.mpr (.inl rfl)⟩⟩), ?_, rfl⟩
    simp [Tree.tokens, Tree.tokensOfAll]
  · -- arguments go to the `new` itself
    rw [hu] at hrule
    cases hrule
    obtain ⟨z, zs, rfl, hz, hzs⟩ := itemsFit_one.mp hxs
    cases itemsFit_nil.mp hzs
    refine ⟨.node .newExpression [.leaf t, y, z],
      greedyPhrase_newExpression limit lead (itemsFit_one.mpr ⟨_, _, rfl, ⟨t, rfl, ht⟩,
        itemsFit_one.mpr ⟨_, _, rfl, hy, itemsFit_optional.mpr (.inr ⟨z, [], rfl, hz, rfl⟩)⟩⟩),
      ?_, rfl⟩
    simp [Tree.tokens, Tree.tokensOfAll]

/-- A greedy phrase with what extends it can be rearranged so that it is greedy. -/
theorem exists_greedy_extended (h : GreedyPhrase c x) {kind : TokenKind}
    (hextension : c.extension x.rank kind = some r) (hxs : itemsFit GreedyPhrase r.items xs) :
    ∃ y, GreedyPhrase c y ∧ y.tokens = x.tokens ++ Tree.tokensOfAll xs ∧ y.rank = r.rank := by
  obtain ⟨hr, hc⟩ := Category.extension_eq hextension
  obtain ⟨t, ts, htokens, hrule⟩ := Rule.first_of_extending (fun h => h.1.first) hr hxs
  cases hwants : x.wants t.kind with
  | false =>
    refine ⟨.node r (x :: xs), h.extended hextension hxs ?_, rfl, rfl⟩
    rw [htokens]
    intro u hu
    cases hu
    exact hwants
  | true =>
    have hkind := h.1.wants hwants
    rcases hc with ⟨limit, lead, rfl⟩ | rfl
    -- an expression wants parentheses or a property only after a `new` without arguments
    · have hmark : t.kind = .mark .dot ∨ t.kind = .mark .lparen := by
        simpa [Category.wants] using hkind
      have hrank : x.rank = .member := by
        obtain ⟨-, ⟨left, hleft, hfits⟩, -⟩ := Category.extension_expression.mp hextension
        have hmember : left = .member := by
          rcases hmark with hmark | hmark <;> rw [hmark] at hrule <;> cases hrule <;>
            exact (Option.some.inj hleft).symm
        rw [hmember] at hfits
        cases hx : x.rank <;> rw [hx] at hfits <;> first | rfl | cases hfits
      obtain ⟨w, y, rfl, hw, hy⟩ := h.1.eq_new_of_wants hrank hwants
      have hgreedy : y.Greedy := GreedyBefore.mem (show GreedyBefore [.leaf w, y] [] from h.2) y
        (by simp)
      obtain ⟨z, hz, hztokens, hzrank⟩ :=
        exists_greedy_newExpression limit lead hw ⟨hy, hgreedy⟩ hmark hrule hxs htokens
      refine ⟨z, hz, ?_, hzrank⟩
      rw [hztokens]
      simp [Tree.tokens, Tree.tokensOfAll]
    · cases hkind

end Extend

/-! ## Every phrase can be made greedy -/

/-- A phrase can be rearranged so that it is greedy: the tokens stay, and so does how tight it
is. -/
theorem Formed.exists_greedy {depth : Nat} {c : Category} {x : Tree} (h : Formed depth c x) :
    ∃ y, GreedyPhrase c y ∧ y.tokens = x.tokens ∧ y.rank = x.rank := by
  induction depth generalizing c x with
  | zero => exact h.elim
  | succ depth ih =>
    have hparts : ∀ {is : List Item} {xs : List Tree}, itemsFit (Formed depth) is xs →
        ∃ ys, itemsFit GreedyPhrase is ys ∧ Tree.tokensOfAll ys = Tree.tokensOfAll xs :=
      fun hxs => itemsFit_rearranged (Q := GreedyPhrase)
        (fun c x hx => (ih hx).imp fun y => And.imp_right And.left) hxs
    induction h with
    | @token t accepted =>
      exact ⟨.leaf t, ⟨formable_iff.mpr (.token accepted), trivial⟩, rfl, rfl⟩
    | through predicted inner =>
      obtain ⟨y, ⟨hy, hgreedy⟩, htokens, hrank⟩ := ih inner
      exact ⟨y, ⟨formable_iff.mpr (.through predicted hy), hgreedy⟩, htokens, hrank⟩
    | @rule r ahead xs predicted items =>
      obtain ⟨ys, hys, htokens⟩ := hparts items
      obtain ⟨zs, hzs, hgreedy, hztokens⟩ : ∃ zs, itemsFit GreedyPhrase r.items zs ∧
          GreedyBefore zs [] ∧ Tree.tokensOfAll zs = Tree.tokensOfAll ys := by
        -- a conditional may have lost its alternative to the one inside; no other rule can
        by_cases hr : r = .ifStatement
        · subst hr
          exact exists_greedy_ifStatement hys
        · exact ⟨ys, hys, greedyBefore_of_itemsFit r.groups_ne_nil (Rule.itemsAllow_wants hr) hys,
            rfl⟩
      exact ⟨.node r zs, ⟨formable_iff.mpr (.rule predicted
        (itemsFit_mono (fun _ _ _ hx => hx.1) hzs)), hgreedy⟩, hztokens.trans htokens, rfl⟩
    | @extended x r kind xs inner extension items ih' =>
      obtain ⟨y, hy, hytokens, hyrank⟩ := ih'
      obtain ⟨ys, hys, htokens⟩ := hparts items
      rw [← hyrank] at extension
      obtain ⟨z, hz, hztokens, hzrank⟩ := exists_greedy_extended hy extension hys
      refine ⟨z, hz, ?_, hzrank⟩
      rw [hztokens, hytokens, htokens]
      rfl

theorem Formable.exists_greedy {c : Category} {x : Tree} (h : Formable c x) :
    ∃ y, GreedyPhrase c y ∧ y.tokens = x.tokens := by
  obtain ⟨depth, h⟩ := h
  exact h.exists_greedy.imp fun y => And.imp_right And.left

/-- Statements can be rearranged so that they are greedy, one after the other. -/
theorem exists_greedy_statements {xs : List Tree} (h : ∀ x ∈ xs, Formable .statement x) :
    ∃ ys, (∀ y ∈ ys, Formable .statement y) ∧ GreedyBefore ys [] ∧
      Tree.tokensOfAll ys = Tree.tokensOfAll xs := by
  obtain ⟨ys, hys, htokens⟩ := (Item.fits_repeated.mpr h).rearranged
    fun c x hx => hx.exists_greedy
  have hitems : itemsFit GreedyPhrase [.repeated [.phrase .statement]] ys :=
    ⟨ys, [], (List.append_nil ys).symm, hys, rfl⟩
  exact ⟨ys, fun y hy => (Item.fits_repeated.mp hys y hy).1,
    greedyBefore_of_itemsFit (by simp) (by decide) hitems, htokens⟩

end SuperForward.Script
