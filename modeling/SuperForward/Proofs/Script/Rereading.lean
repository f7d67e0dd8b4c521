/-
  Reading a pruned tree again.

  How a phrase is read is decided by the tokens ahead, and some of these come after the phrase.
  `Need` says what about them matters: after a phrase that ends at a boundary only whether an
  `else`, a `catch` or a `finally` comes next, after other phrases all tokens up to the next
  boundary. The items of every rule see to it that the tokens after each of them agree that far
  between a tree and the tree it is pruned to. So the reader takes the tree that is pruned off
  its own tokens.
-/
import SuperForward.Proofs.Program.Shape
import SuperForward.Proofs.Script.Pruning

namespace SuperForward.Script

/-! ## Predictions look as far as a boundary -/

theorem Alike.symm {ts ts' : List Token} (h : Alike ts ts') : Alike ts' ts := by
  induction h with
  | nil => exact .nil
  | boundary kind h => exact .boundary kind.symm (kind ▸ h)
  | cons kind _ ih => exact .cons kind.symm ih

/-- The first tokens are of the same kind. -/
theorem Alike.nextKind_append {ts ts' : List Token} (h : Alike ts ts') (hts : ts ≠ [])
    (us us' : List Token) : nextKind? (ts ++ us) = nextKind? (ts' ++ us') := by
  cases h with
  | nil => exact absurd rfl hts
  | boundary kind => exact congrArg some kind
  | cons kind => exact congrArg some kind

theorem Alike.cons_inv {t : Token} {ts us : List Token} (h : Alike (t :: ts) us) :
    ∃ t' ts', us = t' :: ts' ∧ t.kind = t'.kind ∧ (t.kind.isBoundary = true ∨ Alike ts ts') := by
  cases h with
  | boundary kind h => exact ⟨_, _, rfl, kind, .inl h⟩
  | cons kind h => exact ⟨_, _, rfl, kind, .inr h⟩

/-- A loop over names begins with these five tokens. -/
theorem isForIn_iff {ts : List Token} : isForIn (aheadOf ts) = true ↔
    ∃ a b c d e rest, ts = a :: b :: c :: d :: e :: rest ∧ a.kind = .keyword .forKw ∧
      b.kind = .mark .lparen ∧ Category.declarationWord.acceptsToken c.kind = true ∧
      d.kind = .name ∧ e.kind = .keyword .inKw := by
  constructor
  · intro h
    obtain _ | ⟨a, _ | ⟨b, _ | ⟨c, _ | ⟨d, _ | ⟨e, rest⟩⟩⟩⟩⟩ := ts
    case cons.cons.cons.cons.cons =>
      simp only [aheadOf, List.take, List.map] at h
      unfold isForIn at h
      split at h
      · next heq =>
        simp only [List.cons.injEq] at heq
        obtain ⟨ha, hb, hc, hd, he, -⟩ := heq
        exact ⟨a, b, c, d, e, rest, rfl, ha, hb, hc ▸ h, hd, he⟩
      · cases h
    all_goals
      simp only [aheadOf, List.take, List.map] at h
      unfold isForIn at h
      split at h
      · next heq => simp at heq
      · cases h
  · rintro ⟨a, b, c, d, e, rest, rfl, ha, hb, hc, hd, he⟩
    simp only [aheadOf, List.take, List.map, ha, hb, hd, he]
    exact hc

theorem isBoundary_declarationWord {kind : TokenKind}
    (h : Category.declarationWord.acceptsToken kind = true) : kind.isBoundary = false := by
  cases kind <;> first | rfl | cases h

theorem Alike.begins_forIn {ts ts' : List Token} (h : Alike ts ts')
    (hts : isForIn (aheadOf ts) = true) : isForIn (aheadOf ts') = true := by
  obtain ⟨a, b, c, d, e, rest, rfl, ha, hb, hc, hd, he⟩ := isForIn_iff.mp hts
  obtain ⟨a', _, rfl, ha', h | h⟩ := h.cons_inv
  · rw [ha] at h
    cases h
  obtain ⟨b', _, rfl, hb', h | h⟩ := h.cons_inv
  · rw [hb] at h
    cases h
  obtain ⟨c', _, rfl, hc', h | h⟩ := h.cons_inv
  · rw [isBoundary_declarationWord hc] at h
    cases h
  obtain ⟨d', _, rfl, hd', h | h⟩ := h.cons_inv
  · rw [hd] at h
    cases h
  obtain ⟨e', rest', rfl, he', -⟩ := h.cons_inv
  exact isForIn_iff.mpr ⟨a', b', c', d', e', rest', rfl, ha' ▸ ha, hb' ▸ hb, hc' ▸ hc, hd' ▸ hd,
    he' ▸ he⟩

/-- What is predicted depends on the next token, on the one after a name, and on whether a loop
over names begins. -/
theorem Category.predict_congr (c : Category) {kind : TokenKind} {rest rest' : List TokenKind}
    (hname : kind = .name → rest.head? = rest'.head?)
    (hfor : isForIn (kind :: rest) = isForIn (kind :: rest')) :
    c.predict (kind :: rest) = c.predict (kind :: rest') := by
  cases c
  case statement => simp only [predict, hfor]
  case param =>
    simp only [predict]
    by_cases hkind : kind = .name
    · rw [hname hkind]
    · simp only [if_neg hkind]
  case property =>
    simp only [predict]
    by_cases hkind : kind = .name
    · rw [hname hkind]
    · simp only [hkind, false_and]
  all_goals rfl

theorem Alike.predict {ts ts' : List Token} (h : Alike ts ts') (c : Category) :
    c.predict (aheadOf ts) = c.predict (aheadOf ts') := by
  have hfor : isForIn (aheadOf ts) = isForIn (aheadOf ts') := by
    rw [Bool.eq_iff_iff]
    exact ⟨h.begins_forIn, h.symm.begins_forIn⟩
  cases ts with
  | nil =>
    cases h
    rfl
  | cons t ts =>
    obtain ⟨t', ts', rfl, hkind, h⟩ := h.cons_inv
    have hahead (t : Token) (ts : List Token) :
        aheadOf (t :: ts) = t.kind :: (ts.take 4).map (·.kind) := rfl
    have hhead (ts : List Token) : ((ts.take 4).map (·.kind)).head? = nextKind? ts := by
      cases ts <;> rfl
    rw [hahead, hahead, ← hkind] at hfor ⊢
    refine c.predict_congr (fun hname => ?_) hfor
    rw [hhead, hhead]
    rcases h with h | h
    · rw [hname] at h
      cases h
    · exact h.nextKind_eq

/-! ## What matters after a phrase -/

/-- The word goes on with a statement that could have ended before it. -/
def TokenKind.continues : TokenKind → Bool
  | .keyword .elseKw | .keyword .catchKw | .keyword .finallyKw => true
  | _ => false

/-- How far the tokens after a phrase matter to how it is read. -/
inductive Need where
  | nothing | follow | ahead | both
  deriving DecidableEq, Repr

namespace Need

/-- The place in the order of needs. -/
def toNat : Need → Nat
  | .nothing => 0
  | .follow => 1
  | .ahead => 2
  | .both => 3

/-- At most as much. -/
def fits (a b : Need) : Bool := a.toNat ≤ b.toNat

/-- What is left of an agreement if more tokens come first. -/
def cap : Need → Need
  | .both => .ahead
  | n => n

/-- Two lists of tokens agree as far as it matters: in the word that goes on with a statement,
in all tokens up to a boundary, or in these while no such word comes next. -/
def Agree : Need → List Token → List Token → Prop
  | .nothing, _, _ => True
  | .follow, ts, ts' =>
    ∀ kind, kind.continues = true → (nextKind? ts = some kind ↔ nextKind? ts' = some kind)
  | .ahead, ts, ts' => Alike ts ts'
  | .both, ts, ts' => Alike ts ts' ∧ ∀ kind ∈ nextKind? ts, kind.continues = false

theorem Agree.mono {a b : Need} (hab : a.fits b = true) {ts ts' : List Token}
    (h : b.Agree ts ts') : a.Agree ts ts' := by
  have hfollow (h : Alike ts ts') : Need.follow.Agree ts ts' := fun kind _ => by rw [h.nextKind_eq]
  cases a <;> cases b <;> first
    | (cases hab; done)
    | exact trivial
    | exact h
    | exact h.1
    | exact hfollow h
    | exact hfollow h.1

theorem Agree.append {n : Need} {ts ts' us us' : List Token} (h : n.Agree us us')
    (hts : Alike ts ts') : n.cap.Agree (ts ++ us) (ts' ++ us') := by
  cases n with
  | nothing => trivial
  | follow =>
    cases hts with
    | nil => exact h
    | boundary hkind => exact fun kind _ => by simp [nextKind?, hkind]
    | cons hkind => exact fun kind _ => by simp [nextKind?, hkind]
  | ahead => exact hts.append h
  | both => exact hts.append h.1

end Need

/-- What matters after a phrase of a category. -/
def Category.need : Category → Need
  | .statement | .block | .functionBody | .catchClause | .finallyClause => .follow
  | .switchCase => .both
  | _ => .ahead

namespace Part

/-- What matters after a part. -/
def need : Part → Need
  | .token _ => .nothing
  | .phrase c => c.need

/-- How far the tokens agree from a part on, if those after it agree so far. -/
def supply (n : Need) : Part → Need
  | .token (.mark m) => if m.isBoundary then .both else n.cap
  | .token _ => n.cap
  | .phrase c => if c.isClosed then .ahead else n.cap

/-- The part begins with a word that goes on with a statement. -/
def continues : Part → Bool
  | .token kind => kind.continues
  | .phrase c => c = .catchClause || c = .finallyClause

end Part

/-- How far the tokens agree from some parts on. -/
def partsSupply (n : Need) (ps : List Part) : Need := ps.foldr (fun p n => p.supply n) n

/-- After every part the tokens agree as far as it matters. -/
def partsCheck (n : Need) : List Part → Bool
  | [] => true
  | p :: ps => p.need.fits (partsSupply n ps) && partsCheck n ps

namespace Item

/-- The tokens after an item agree as far as it matters. -/
def checks (n : Need) : Item → Bool
  | .one p => p.need.fits n
  | .optional ps => partsCheck n ps &&
      (Need.ahead.fits n || Need.follow.fits n && ps.head?.any Part.continues)
  | .repeated ps =>
    if ps = [.phrase .statement] ∨ ps = [.phrase .switchCase] then n = .both
    else Need.ahead.fits n && partsCheck .ahead ps
  | .list c _ => Need.ahead.fits n && c.need = .ahead

/-- How far the tokens agree from an item on: not at all from listed statements on, since these
may be taken out. -/
def supply (n : Need) : Item → Need
  | .one p => p.supply n
  | .repeated ps => if ps = [.phrase .statement] then .nothing else n.cap
  | .optional _ | .list _ _ => n.cap

/-- The item may stand beside listed statements. -/
def isListed : Item → Bool
  | .one (.token _) => true
  | .one (.phrase c) => c ≠ .statement
  | .repeated ps => ps = [.phrase .statement]
  | _ => false

end Item

/-- How far the tokens agree from some items on. -/
def itemsSupply (n : Need) (is : List Item) : Need := is.foldr (fun i n => i.supply n) n

/-- After every item the tokens agree as far as it matters. -/
def itemsCheck (n : Need) : List Item → Bool
  | [] => true
  | i :: is => i.checks (itemsSupply n is) && itemsCheck n is

/-- The items of every rule see to it that tokens agree as far as it matters. -/
theorem Rule.items_check {c : Category} {r : Rule} (hr : r ∈ c.rules) :
    itemsCheck c.need r.items = true := by
  cases c <;> revert r <;> simp only [Category.rules, Category.need] <;> decide

theorem Rule.items_check_of_extending {r : Rule} (hr : r ∈ extendingRules) :
    itemsCheck .ahead r.items = true ∧ r.lists = false := by
  revert r
  decide

theorem Rule.isListed_of_lists {r : Rule} (hr : r.lists = true) :
    r.items.all Item.isListed = true := by
  revert hr
  cases r <;> decide

/-! ### Groups -/

theorem entersGroup_congr {ts ts' : List Token} (h : nextKind? ts = nextKind? ts')
    (ps : List Part) : entersGroup ps ts = entersGroup ps ts' := by
  unfold entersGroup
  rw [h]

theorem Part.continues_of_startsWith {p : Part} (hp : p.continues = true) {kind : TokenKind}
    (h : p.startsWith kind = true) : kind.continues = true := by
  cases p with
  | token k =>
    obtain rfl : kind = k := by simpa [Part.startsWith] using h
    exact hp
  | phrase c =>
    simp only [Part.continues, Bool.or_eq_true, decide_eq_true_eq] at hp
    rcases hp with rfl | rfl
    · obtain rfl : kind = .keyword .catchKw := by simpa [Part.startsWith, Category.startsWith] using h
      rfl
    · obtain rfl : kind = .keyword .finallyKw := by
        simpa [Part.startsWith, Category.startsWith] using h
      rfl

/-- Whether a group goes on with a statement depends on the word that comes next. -/
theorem Need.Agree.entersGroup {ts ts' : List Token} (h : Need.follow.Agree ts ts')
    {ps : List Part} (hps : ps.head?.any Part.continues = true) :
    entersGroup ps ts = entersGroup ps ts' := by
  cases ps with
  | nil => cases hps
  | cons p ps =>
    have key {us us' : List Token} (h : Need.follow.Agree us us')
        (hus : Script.entersGroup (p :: ps) us = true) :
        Script.entersGroup (p :: ps) us' = true := by
      unfold Script.entersGroup at hus ⊢
      cases hkind : nextKind? us with
      | none =>
        rw [hkind] at hus
        cases hus
      | some kind =>
        rw [hkind] at hus
        rw [(h kind (Part.continues_of_startsWith hps hus)).mp hkind]
        exact hus
    rw [Bool.eq_iff_iff]
    exact ⟨key h, key fun kind hk => (h kind hk).symm⟩

/-! ## Pruned parts -/

section

variable {R : Token → Token → Prop} {lists b : Bool}

/-- Trees that are pruned one by one, and none of them taken out. -/
abbrev Kept (R : Token → Token → Prop) : List Tree → List Tree → Prop :=
  List.Forall₂ fun x x₀ => ∃ gone, Prunes R x gone x₀

/-- Only expression statements are taken out, and only where statements are listed. -/
theorem PrunesAll.kept {xs gone xs₀ : List Tree} (h : PrunesAll (Prunes R) lists b xs gone xs₀)
    (hxs : lists = true → ∀ x ∈ xs, ∀ parts, x ≠ .node .expressionStatement parts) :
    Kept R xs xs₀ := by
  induction h with
  | nil => exact .nil
  | keep head _ ih =>
    exact .cons ⟨_, head⟩ (ih fun hl x hx => hxs hl x (List.mem_cons_of_mem _ hx))
  | drop => exact absurd rfl (hxs rfl _ (List.mem_cons_self ..) _)

theorem PrunesAll.append_inv {P : Tree → List Tree → Tree → Prop} {xs ys gone zs₀ : List Tree}
    (h : PrunesAll P lists b (xs ++ ys) gone zs₀) :
    ∃ b' gone' more xs₀ ys₀, gone = gone' ++ more ∧ zs₀ = xs₀ ++ ys₀ ∧
      PrunesAll P lists b xs gone' xs₀ ∧ PrunesAll P lists b' ys more ys₀ := by
  induction xs generalizing b gone zs₀ with
  | nil => exact ⟨b, [], gone, [], zs₀, rfl, rfl, .nil _ _, h⟩
  | cons x xs ih =>
    cases h with
    | @keep _ _ _ gone _ _ more _ head tail =>
      obtain ⟨b', gone', more', xs₀, ys₀, rfl, rfl, hxs, hys⟩ := ih tail
      exact ⟨b', gone ++ gone', more', _ :: xs₀, ys₀, (List.append_assoc ..).symm, rfl,
        .keep head hxs, hys⟩
    | drop semicolon tail =>
      obtain ⟨b', gone', more', xs₀, ys₀, rfl, rfl, hxs, hys⟩ := ih tail
      exact ⟨b', _ :: gone', more', xs₀, ys₀, rfl, rfl, .drop semicolon hxs, hys⟩

theorem forall₂_append_inv {α β : Type} {S : α → β → Prop} {xs ys : List α} {zs : List β}
    (h : List.Forall₂ S (xs ++ ys) zs) :
    ∃ xs' ys', zs = xs' ++ ys' ∧ List.Forall₂ S xs xs' ∧ List.Forall₂ S ys ys' := by
  induction xs generalizing zs with
  | nil => exact ⟨[], zs, rfl, .nil, h⟩
  | cons x xs ih =>
    cases h with
    | cons head tail =>
      obtain ⟨xs', ys', rfl, hxs, hys⟩ := ih tail
      exact ⟨_ :: xs', ys', rfl, .cons head hxs, hys⟩

theorem Prunes.rank_eq {x x₀ : Tree} {gone : List Tree} (h : Prunes R x gone x₀) :
    x₀.rank = x.rank := by
  cases h <;> rfl

end

/-! ## Reading again -/

/-- How phrases inside are read again. -/
structure Rereads (R : Token → Token → Prop)
    (P : Category → List Token → Tree → List Token → Prop) : Prop where
  tokens : ∀ {c ts x rest}, P c ts x rest → ts = x.tokens ++ rest
  ne_nil : ∀ {c ts x rest}, P c ts x rest → x.tokens ≠ []
  closed : ∀ {c ts x rest}, P c ts x rest → c.isClosed = true → flagAfter false x.tokens = true
  statement : ∀ {c ts parts rest}, P c ts (.node .expressionStatement parts) rest →
    c = .statement
  again : ∀ {c ts x rest gone x₀ rest₀}, P c ts x rest → Prunes R x gone x₀ →
    c.need.Agree rest rest₀ → P c (x₀.tokens ++ rest₀) x₀ rest₀

section Rereads

variable {R : Token → Token → Prop} (hR : ∀ {t t'}, R t t' → t.kind = t'.kind)
  {P : Category → List Token → Tree → List Token → Prop} (hP : Rereads R P)

section

include hR

theorem Kept.alike {xs xs₀ : List Tree} (h : Kept R xs xs₀) :
    Alike (Tree.tokensOfAll xs) (Tree.tokensOfAll xs₀) := by
  induction h with
  | nil => exact .nil
  | cons head _ ih =>
    obtain ⟨gone, head⟩ := head
    exact (head.alike hR).append ih

theorem Kept.agree {xs xs₀ : List Tree} (h : Kept R xs xs₀) {n : Need} {rest rest₀ : List Token}
    (hrest : n.Agree rest rest₀) :
    n.cap.Agree (Tree.tokensOfAll xs ++ rest) (Tree.tokensOfAll xs₀ ++ rest₀) :=
  hrest.append (h.alike hR)

end

include hR hP

theorem TakesPart.supply_agree {p ts x rest} (h : TakesPart P p ts x rest) {gone x₀}
    (hx : Prunes R x gone x₀) {n : Need} {rest₀ : List Token} (hrest : n.Agree rest rest₀) :
    (p.supply n).Agree (x.tokens ++ rest) (x₀.tokens ++ rest₀) := by
  have hcap := hrest.append (hx.alike hR)
  cases h with
  | token t =>
    cases hkind : t.kind with
    | mark m =>
      rw [Part.supply]
      split
      · next hm =>
        cases hx with
        | leaf h =>
          refine ⟨.boundary (hR h) (by rw [hkind]; exact hm), ?_⟩
          rintro kind ⟨⟩
          show t.kind.continues = false
          rw [hkind]
          rfl
      · exact hcap
    | _ => exact hcap
  | phrase h =>
    rw [Part.supply]
    split
    · next hc =>
      exact (hx.alike hR).append_of_boundary (exists_boundary (hP.closed h hc)) _ _
    · exact hcap

theorem TakesPart.again {p ts x rest} (h : TakesPart P p ts x rest) {gone x₀}
    (hx : Prunes R x gone x₀) {n : Need} (hn : p.need.fits n = true) {rest₀ : List Token}
    (hrest : n.Agree rest rest₀) : TakesPart P p (x₀.tokens ++ rest₀) x₀ rest₀ := by
  cases h with
  | token t =>
    cases hx with
    | leaf h =>
      rw [hR h]
      exact .token _ _
  | phrase h => exact .phrase (hP.again h hx (hrest.mono hn))

theorem TakesParts.again {ps ts xs rest} (h : TakesParts P ps ts xs rest) {xs₀}
    (hxs : Kept R xs xs₀) {n : Need} (hn : partsCheck n ps = true) {rest₀ : List Token}
    (hrest : n.Agree rest rest₀) :
    TakesParts P ps (Tree.tokensOfAll xs₀ ++ rest₀) xs₀ rest₀ ∧
      (partsSupply n ps).Agree ts (Tree.tokensOfAll xs₀ ++ rest₀) := by
  induction h generalizing xs₀ with
  | nil =>
    cases hxs
    exact ⟨.nil _, hrest⟩
  | @cons p ps ts x mid xs rest head tail ih =>
    cases hxs with
    | cons hx hxs =>
      obtain ⟨gone, hx⟩ := hx
      obtain ⟨hneed, hcheck⟩ := Bool.and_eq_true_iff.mp hn
      obtain ⟨htail, hagree⟩ := ih hxs hcheck hrest
      rw [Tree.tokensOfAll, List.append_assoc, head.tokens_eq hP.tokens]
      exact ⟨.cons (head.again hR hP hx hneed hagree) htail,
        head.supply_agree hR hP hx hagree⟩

omit hR in
theorem TakesParts.ne_nil {ps ts xs rest} (h : TakesParts P ps ts xs rest) (hps : ps ≠ []) :
    Tree.tokensOfAll xs ≠ [] := by
  cases h with
  | nil => exact absurd rfl hps
  | cons head =>
    rw [Tree.tokensOfAll]
    intro hnil
    cases head with
    | token => cases hnil
    | phrase h => exact hP.ne_nil h (List.append_eq_nil_iff.mp hnil).1

theorem TakesRepeated.again {ps ts xs rest} (h : TakesRepeated P ps ts xs rest) {xs₀}
    (hxs : Kept R xs xs₀) {n : Need} (hcheck : partsCheck n ps = true)
    (hn : n = .ahead ∨ n = .both ∧ ∀ kind, ps.head?.any (·.startsWith kind) = true →
      kind.continues = false) {rest₀ : List Token} (hrest : n.Agree rest rest₀) :
    TakesRepeated P ps (Tree.tokensOfAll xs₀ ++ rest₀) xs₀ rest₀ ∧
      n.Agree ts (Tree.tokensOfAll xs₀ ++ rest₀) := by
  have halike {ts ts' : List Token} (h : n.Agree ts ts') : Alike ts ts' := by
    rcases hn with rfl | ⟨rfl, -⟩
    · exact h
    · exact h.1
  induction h generalizing xs₀ with
  | stop hstop =>
    cases hxs
    exact ⟨.stop (entersGroup_congr (halike hrest).nextKind_eq ps ▸ hstop), hrest⟩
  | @more ts xs mid ys rest enters group _ ih =>
    obtain ⟨xs₀, ys₀, rfl, hxs, hys⟩ := forall₂_append_inv hxs
    obtain ⟨htail, hagree⟩ := ih hys hrest
    rw [Tree.tokensOfAll_append, List.append_assoc]
    have hwhole : Alike ts (Tree.tokensOfAll xs₀ ++ (Tree.tokensOfAll ys₀ ++ rest₀)) := by
      rw [group.tokens_eq hP.tokens]
      exact (Kept.alike hR hxs).append (halike hagree)
    refine ⟨.more (entersGroup_congr hwhole.nextKind_eq ps ▸ enters)
      (group.again hR hP hxs hcheck hagree).1 htail, ?_⟩
    rcases hn with rfl | ⟨rfl, hn⟩
    · exact hwhole
    · refine ⟨hwhole, fun kind hk => hn kind ?_⟩
      unfold entersGroup at enters
      rw [Option.mem_def.mp hk] at enters
      exact enters

theorem TakesMore.again {c shape ts xs rest} (h : TakesMore P c shape ts xs rest) {xs₀}
    (hxs : Kept R xs xs₀) (hc : c.need = .ahead) {rest₀ : List Token} (hrest : Alike rest rest₀) :
    TakesMore P c shape (Tree.tokensOfAll xs₀ ++ rest₀) xs₀ rest₀ := by
  -- a list goes on or ends by the token ahead, which is alike before and after
  induction h generalizing xs₀ with
  | stop hstop =>
    cases hxs
    refine .stop ?_
    unfold atComma at hstop ⊢
    rwa [Tree.tokensOfAll, List.nil_append, ← hrest.nextKind_eq]
  | @trail t rest comma htrail =>
    obtain ⟨y, _, ⟨gone, hy⟩, hnil, rfl⟩ := List.forall₂_cons_left_iff.mp hxs
    cases hnil
    cases hy with
    | leaf h =>
      refine .trail (hR h ▸ comma) ?_
      unfold endsList at htrail ⊢
      rw [hrest.nextKind_eq] at htrail
      exact htrail
  | @more t ts x mid xs rest comma hmore element tail ih =>
    obtain ⟨y, _, ⟨gone, hy⟩, hmore', rfl⟩ := List.forall₂_cons_left_iff.mp hxs
    obtain ⟨x₀, xs₀, ⟨gone', hx⟩, hxs', rfl⟩ := List.forall₂_cons_left_iff.mp hmore'
    have hmid : Alike mid (Tree.tokensOfAll xs₀ ++ rest₀) := by
      rw [tail.tokens_eq hP.tokens]
      exact (Kept.alike hR hxs').append hrest
    have hts : Alike ts (x₀.tokens ++ (Tree.tokensOfAll xs₀ ++ rest₀)) := by
      rw [hP.tokens element]
      exact (hx.alike hR).append hmid
    cases hy with
    | leaf h =>
      simp only [Tree.tokensOfAll, Tree.tokens, List.append_assoc, List.cons_append,
        List.nil_append]
      refine .more (hR h ▸ comma) ?_ (hP.again element hx (by rw [hc]; exact hmid)) (ih hxs' hrest)
      unfold endsList at hmore ⊢
      rwa [← hts.nextKind_eq]

theorem TakesItem.again {i ts xs rest} (h : TakesItem P i ts xs rest) {xs₀}
    (hxs : Kept R xs xs₀) (hlist : i ≠ .repeated [.phrase .statement]) {n : Need}
    (hn : i.checks n = true) {rest₀ : List Token} (hrest : n.Agree rest rest₀) :
    TakesItem P i (Tree.tokensOfAll xs₀ ++ rest₀) xs₀ rest₀ := by
  -- where the parser looks ahead, the token that it sees is the first one kept, or what comes
  -- after
  cases h with
  | one h =>
    obtain ⟨x₀, _, ⟨gone, hx⟩, hnil, rfl⟩ := List.forall₂_cons_left_iff.mp hxs
    obtain rfl := List.forall₂_nil_left_iff.mp hnil
    rw [Tree.tokensOfAll, Tree.tokensOfAll, List.append_nil]
    exact .one (h.again hR hP hx hn hrest)
  | @absent ps ts habsent =>
    cases hxs
    obtain ⟨-, hn⟩ := Bool.and_eq_true_iff.mp hn
    refine .absent ?_
    rw [Tree.tokensOfAll, List.nil_append, ← habsent]
    rcases Bool.or_eq_true_iff.mp hn with hn | hn
    · have halike : Alike _ _ := Need.Agree.mono hn hrest
      exact entersGroup_congr halike.nextKind_eq.symm ps
    · obtain ⟨hn, hps⟩ := Bool.and_eq_true_iff.mp hn
      exact ((hrest.mono hn).entersGroup hps).symm
  | @present ps ts xs rest enters h =>
    obtain ⟨hcheck, -⟩ := Bool.and_eq_true_iff.mp hn
    refine .present ?_ (h.again hR hP hxs hcheck hrest).1
    have hne : Tree.tokensOfAll xs ≠ [] := by
      refine h.ne_nil hP ?_
      rintro rfl
      cases hkind : nextKind? ts <;> simp [entersGroup, hkind] at enters
    rw [h.tokens_eq hP.tokens] at enters
    rw [← enters]
    exact entersGroup_congr ((hxs.alike hR).nextKind_append hne _ _).symm ps
  | @repeated ps ts xs rest h =>
    refine .repeated ?_
    rw [Item.checks] at hn
    split at hn
    · next hps =>
      obtain rfl : ps = [.phrase .switchCase] := hps.resolve_left fun hps => hlist (hps ▸ rfl)
      obtain rfl : n = .both := by simpa using hn
      refine (h.again hR hP hxs (n := .both) rfl (.inr ⟨rfl, fun kind hk => ?_⟩) hrest).1
      have hk' : kind = .keyword .caseKw ∨ kind = .keyword .defaultKw := by
        simpa [Part.startsWith, Category.startsWith] using hk
      rcases hk' with rfl | rfl <;> rfl
    · obtain ⟨hn, hcheck⟩ := Bool.and_eq_true_iff.mp hn
      exact (h.again hR hP hxs hcheck (.inl rfl) (hrest.mono hn)).1
  | @list c shape ts xs rest h =>
    obtain ⟨hn, hc⟩ := Bool.and_eq_true_iff.mp hn
    have hc' : c.need = .ahead := by simpa using hc
    have hrest' : Alike rest rest₀ := hrest.mono hn
    refine .list ?_
    cases h with
    | none h =>
      cases hxs
      refine .none ?_
      unfold beginsPhrase at h ⊢
      rwa [Tree.tokensOfAll, List.nil_append, ← hrest'.nextKind_eq]
    | @some x mid xs _ h first tail =>
      obtain ⟨x₀, xs₀, ⟨gone, hx⟩, hxs', rfl⟩ := List.forall₂_cons_left_iff.mp hxs
      have hmid : Alike mid (Tree.tokensOfAll xs₀ ++ rest₀) := by
        rw [tail.tokens_eq hP.tokens]
        exact (Kept.alike hR hxs').append hrest'
      have hts : Alike ts (x₀.tokens ++ (Tree.tokensOfAll xs₀ ++ rest₀)) := by
        rw [hP.tokens first]
        exact (hx.alike hR).append hmid
      rw [Tree.tokensOfAll, List.append_assoc]
      refine .some ?_ (hP.again first hx (by rw [hc']; exact hmid)) (tail.again hR hP hxs' hc' hrest')
      unfold beginsPhrase at h ⊢
      rwa [← hts.nextKind_eq]

omit hR hP in
/-- No statement begins with a word that goes on with one. -/
theorem continues_of_statement {kind : TokenKind}
    (h : Category.statement.startsWith kind = true) : kind.continues = false := by
  cases kind with
  | keyword w => revert h; cases w <;> decide
  | _ => rfl

omit hR hP in
/-- Where statements are listed, no word comes next that goes on with a statement. -/
theorem TakesRepeated.continues_eq {ts xs rest}
    (h : TakesRepeated P [.phrase .statement] ts xs rest)
    (hrest : ∀ kind ∈ nextKind? rest, kind.continues = false) :
    ∀ kind ∈ nextKind? ts, kind.continues = false := by
  cases h with
  | stop => exact hrest
  | more enters =>
    intro kind hk
    unfold entersGroup at enters
    rw [Option.mem_def.mp hk] at enters
    exact continues_of_statement enters

/-- Listed statements are read again, those that are taken out apart. -/
theorem TakesRepeated.again_statements {ts xs rest}
    (h : TakesRepeated P [.phrase .statement] ts xs rest) {lists b : Bool} {gone xs₀}
    (hxs : PrunesAll (Prunes R) lists b xs gone xs₀) {rest₀ : List Token}
    (hrest : Need.both.Agree rest rest₀) :
    TakesRepeated P [.phrase .statement] (Tree.tokensOfAll xs₀ ++ rest₀) xs₀ rest₀ := by
  have hrest₀ : ∀ kind ∈ nextKind? rest₀, kind.continues = false :=
    hrest.1.nextKind_eq ▸ hrest.2
  induction h generalizing b gone xs₀ with
  | stop hstop =>
    cases hxs
    exact .stop (entersGroup_congr hrest.1.nextKind_eq _ ▸ hstop)
  | @more ts xs mid ys rest enters group tail ih =>
    cases group with
    | cons head hnil =>
      cases hnil
      cases head with
      | @phrase _ _ x _ head =>
        cases hxs with
        -- a statement that is gone leaves the ones after it as they were read
        | drop _ hys => exact ih hys hrest
        | @keep _ _ x _ x₀ _ _ ys₀ hx hys =>
          have htail := ih hys hrest
          have hmid := tail.continues_eq hrest.2
          have hmid₀ := htail.continues_eq hrest₀
          have hhead : P .statement (x₀.tokens ++ (Tree.tokensOfAll ys₀ ++ rest₀)) x₀
              (Tree.tokensOfAll ys₀ ++ rest₀) := by
            refine hP.again head hx fun kind hk => ⟨fun h => ?_, fun h => ?_⟩
            · rw [hmid kind h] at hk
              cases hk
            · rw [hmid₀ kind h] at hk
              cases hk
          rw [Tree.tokensOfAll, List.append_assoc]
          refine @TakesRepeated.more _ _ _ [x₀] _ _ _ ?_ (.cons (.phrase hhead) (.nil _)) htail
          rw [← enters, hP.tokens head]
          exact entersGroup_congr ((hx.alike hR).nextKind_append (hP.ne_nil head) _ _).symm _

theorem TakesItems.again {is ts xs rest} (h : TakesItems P is ts xs rest) {lists b : Bool}
    {gone xs₀} (hxs : PrunesAll (Prunes R) lists b xs gone xs₀)
    (hlists : lists = true → is.all Item.isListed = true) {n : Need}
    (hn : itemsCheck n is = true) {rest₀ : List Token} (hrest : n.Agree rest rest₀) :
    TakesItems P is (Tree.tokensOfAll xs₀ ++ rest₀) xs₀ rest₀ ∧
      (itemsSupply n is).Agree ts (Tree.tokensOfAll xs₀ ++ rest₀) := by
  induction h generalizing b gone xs₀ with
  | nil =>
    cases hxs
    exact ⟨.nil _, hrest⟩
  | @cons i is ts xs mid ys rest head tail ih =>
    obtain ⟨b', gone', more, xs₀, ys₀, rfl, rfl, hxs, hys⟩ := hxs.append_inv
    obtain ⟨hcheck, hn⟩ := Bool.and_eq_true_iff.mp hn
    have hlisted := fun h => Bool.and_eq_true_iff.mp (List.all_cons.symm.trans (hlists h))
    obtain ⟨htail, hagree⟩ := ih hys (fun h => (hlisted h).2) hn hrest
    rw [Tree.tokensOfAll_append, List.append_assoc]
    -- statements may be gone from a list of statements only, and elsewhere each part is kept
    by_cases hlist : i = .repeated [.phrase .statement]
    · subst hlist
      have hboth : itemsSupply n is = .both := by simpa [Item.checks] using hcheck
      rw [hboth] at hagree
      cases head with
      | repeated head =>
        exact ⟨.cons (.repeated (head.again_statements hR hP hxs hagree)) htail, trivial⟩
    · have hkept : Kept R xs xs₀ := by
        refine hxs.kept fun h x hx parts => ?_
        have hi : i.isListed = true := (hlisted h).1
        cases i with
        | one p =>
          cases head with
          | one head =>
            rw [List.mem_singleton.mp hx]
            rintro rfl
            cases head with
            | phrase h =>
              rw [hP.statement h] at hi
              cases hi
        | repeated ps => exact absurd (by simpa [Item.isListed] using hi) hlist
        | optional => cases hi
        | list => cases hi
      refine ⟨.cons (head.again hR hP hkept hlist hcheck hagree) htail, ?_⟩
      rw [head.tokens_eq hP.tokens]
      cases i with
      | one p =>
        cases head with
        | one head =>
          obtain ⟨x₀, _, ⟨gone, hx⟩, hnil, rfl⟩ := List.forall₂_cons_left_iff.mp hkept
          cases hnil
          simp only [Tree.tokensOfAll, List.append_nil]
          exact head.supply_agree hR hP hx hagree
      | repeated ps =>
        have hsupply : itemsSupply n (.repeated ps :: is) = (itemsSupply n is).cap :=
          if_neg fun (h : ps = [.phrase .statement]) => hlist (h ▸ rfl)
        rw [hsupply]
        exact hkept.agree hR hagree
      | optional => exact hkept.agree hR hagree
      | list => exact hkept.agree hR hagree

/-- A phrase is extended again as it was. -/
theorem TakesExtended.again {c x ts y rest} (h : TakesExtended P c x ts y rest) {gone y₀}
    (hy : Prunes R y gone y₀) {rest₀ : List Token} (hrest : c.need.Agree rest rest₀) :
    ∃ gone' x₀ ts₀, Prunes R x gone' x₀ ∧ TakesExtended P c x₀ ts₀ y₀ rest₀ ∧
      c.need.Agree ts ts₀ ∧ x₀.tokens ++ ts₀ = y₀.tokens ++ rest₀ := by
  -- from the end: the phrase is extended to what was kept of it, and then the one inside is
  -- looked at
  induction h with
  | @stop x ts hstop =>
    refine ⟨gone, y₀, rest₀, hy, .stop ?_, hrest, rfl⟩
    by_cases hc : (∃ limit lead, c = .expression limit lead) ∨ c = .newTarget
    · have halike : Alike ts rest₀ := by
        rcases hc with ⟨_, _, rfl⟩ | rfl <;> exact hrest
      unfold extension? at hstop ⊢
      rw [hy.rank_eq, ← halike.nextKind_eq]
      exact hstop
    · rw [Option.eq_none_iff_forall_ne_some]
      intro r hr
      obtain ⟨kind, -, hkind⟩ := Option.bind_eq_some_iff.mp hr
      exact hc (Category.extension_eq hkind).2
  | @step x r ts xs mid y rest hext items tail ih =>
    obtain ⟨gone', x₁, mid₀, hx₁, htail, hmid, htokens⟩ := ih hy hrest
    obtain ⟨kind, -, hkind⟩ := Option.bind_eq_some_iff.mp hext
    obtain ⟨hr, hc⟩ := Category.extension_eq hkind
    have hneed : c.need = .ahead := by rcases hc with ⟨_, _, rfl⟩ | rfl <;> rfl
    obtain ⟨hcheck, hlists⟩ := Rule.items_check_of_extending hr
    rw [hneed] at hmid ⊢
    cases hx₁ with
    | node h =>
      rw [hlists] at h
      cases h with
      | @keep _ _ _ gone x₀ _ more xs₀ hx hxs =>
        have hkept : Kept R xs xs₀ := hxs.kept (fun h => absurd h Bool.false_ne_true)
        have hts : Alike ts (Tree.tokensOfAll xs₀ ++ mid₀) := by
          rw [items.tokens_eq hP.tokens]
          exact (hkept.alike hR).append hmid
        refine ⟨gone, x₀, Tree.tokensOfAll xs₀ ++ mid₀, hx, .step ?_
          (items.again hR hP hxs (fun h => absurd h Bool.false_ne_true) hcheck hmid).1 htail, hts, ?_⟩
        · unfold extension? at hext ⊢
          rw [hx.rank_eq, ← hts.nextKind_eq]
          exact hext
        · rw [← htokens, Tree.tokens, Tree.tokensOfAll, List.append_assoc]

/-- A phrase is read again as it was. -/
theorem TakesPhrase.again {c ts x rest} (h : TakesPhrase P c ts x rest)
    (hclosed : c.isClosed = true → flagAfter false x.tokens = true) {gone x₀}
    (hx : Prunes R x gone x₀) {rest₀ : List Token} (hrest : c.need.Agree rest rest₀) :
    TakesPhrase P c (x₀.tokens ++ rest₀) x₀ rest₀ := by
  -- the parser predicts from the tokens ahead, which go past the end of a phrase unless that is
  -- closed
  have hwhole : Alike ts (x₀.tokens ++ rest₀) := by
    rw [h.tokens_eq hP.tokens]
    cases hc : c.isClosed with
    | true => exact (hx.alike hR).append_of_boundary (exists_boundary (hclosed hc)) _ _
    | false =>
      refine (hx.alike hR).append (Need.Agree.mono (a := .ahead) ?_ hrest)
      cases c <;> first | rfl | cases hc
  have hpredict := hwhole.predict c
  cases h with
  | token predicted accepted =>
    cases hx with
    | leaf h =>
      refine .token ?_ (hR h ▸ accepted)
      rw [← predicted]
      exact hpredict.symm
  | through predicted inner extended =>
    obtain ⟨gone', y₀, mid₀, hy, htail, hmid, htokens⟩ := extended.again hR hP hx hrest
    rw [← htokens] at hpredict ⊢
    refine .through (hpredict ▸ predicted) (hP.again inner hy ?_) htail
    obtain h | ⟨_, -, h⟩ | ⟨d, hd, h⟩ := Category.predict_eq predicted
    · cases h
    · cases h
    · cases h
      cases c <;> cases hd <;> exact hmid
  | rule predicted items extended =>
    obtain ⟨gone', y₀, mid₀, hy, htail, hmid, htokens⟩ := extended.again hR hP hx hrest
    obtain h | ⟨r, hr, h⟩ | ⟨_, -, h⟩ := Category.predict_eq predicted
    · cases h
    · cases h
      rw [← htokens] at hpredict ⊢
      cases hy with
      | node h =>
        exact .rule (hpredict ▸ predicted)
          (items.again hR hP h Rule.isListed_of_lists (Rule.items_check hr) hmid).1 htail
    · cases h

end Rereads

/-! ## Reading statements again -/

/-- Only statements are expression statements. -/
theorem Formed.eq_statement {depth : Nat} {c : Category} {parts : List Tree}
    (h : Formed depth c (.node .expressionStatement parts)) : c = .statement := by
  induction depth generalizing c with
  | zero => exact h.elim
  | succ depth ih =>
    replace h : FormedPhrase (Formed depth) c (.node .expressionStatement parts) := h
    cases h with
    | through predicted inner =>
      obtain h | ⟨_, -, h⟩ | ⟨d, hd, h⟩ := Category.predict_eq predicted
      · cases h
      · cases h
      · cases h
        rw [ih inner] at hd
        cases c <;> cases hd
    | rule predicted =>
      obtain h | ⟨r, hr, h⟩ | ⟨_, -, h⟩ := Category.predict_eq predicted
      · cases h
      · cases h
        exact Sketch.Category.eq_of_expressionStatement hr
      · cases h
    | extended _ extension =>
      exact absurd (Category.extension_eq extension).1 (by decide)

theorem Takes.ne_nil {depth : Nat} {c : Category} {ts rest : List Token} {x : Tree}
    (h : Takes depth c ts x rest) : x.tokens ≠ [] := by
  intro hnil
  have hlt := h.progress
  rw [h.tokens_eq, hnil, List.nil_append] at hlt
  exact Nat.lt_irrefl _ hlt

variable {R : Token → Token → Prop} (hR : ∀ {t t'}, R t t' → t.kind = t'.kind)
include hR

theorem Takes.rereads (depth : Nat) : Rereads R (Takes depth) where
  tokens := Takes.tokens_eq
  ne_nil := Takes.ne_nil
  closed h := h.formed.closed
  statement h := h.formed.eq_statement
  again := by
    induction depth with
    | zero => exact fun h => h.elim
    | succ depth ih =>
      intro c ts x rest gone x₀ rest₀ h hx hrest
      have hP : Rereads R (Takes depth) :=
        ⟨Takes.tokens_eq, Takes.ne_nil, fun h => h.formed.closed,
          fun h => h.formed.eq_statement, ih⟩
      exact TakesPhrase.again hR hP h h.formed.closed hx hrest

theorem Stands.rereads : Rereads R Stands where
  tokens := Stands.tokens_eq
  ne_nil h := h.elim fun _ h => h.ne_nil
  closed h := h.elim fun _ h => h.formed.closed
  statement h := h.elim fun _ h => h.formed.eq_statement
  again h hx hrest := h.imp fun depth h => (Takes.rereads hR depth).again h hx hrest

/-- Statements that some others are taken out of are read off their own tokens. -/
theorem StatementsStand.again {ts : List Token} {xs gone xs₀ : List Tree}
    (h : StatementsStand ts xs []) {lists b : Bool}
    (hxs : PrunesAll (Prunes R) lists b xs gone xs₀) :
    StatementsStand (Tree.tokensOfAll xs₀) xs₀ [] := by
  have hnil : Need.both.Agree [] [] := ⟨.nil, fun kind hk => by cases hk⟩
  have := TakesRepeated.again_statements hR (Stands.rereads hR) h hxs hnil
  rwa [List.append_nil] at this

end SuperForward.Script
