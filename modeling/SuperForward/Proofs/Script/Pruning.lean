/-
  Syntax trees that statements are pruned from.

  Expression statements are taken out of lists of statements: those between braces, those of a
  case, and those of a script. Before each of them stands the end of a statement or another
  mark that statements begin after, since statements end at boundaries. So the tokens of a tree
  are woven of those that are kept and those of the statements that are taken out, and up to
  the first boundary they stay as they are.
-/
import SuperForward.Proofs.Script.Alike
import SuperForward.Proofs.Script.Reading

namespace SuperForward.Script

open SuperForward.Text (woven kept)

/-! ## Where phrases end -/

/-- Whether some tokens end at a boundary, and if there are none, whether one came before. -/
def flagAfter (b : Bool) (ts : List Token) : Bool := ts.foldl (fun _ t => t.kind.isBoundary) b

@[simp] theorem flagAfter_nil (b : Bool) : flagAfter b [] = b := rfl

@[simp] theorem flagAfter_cons (b : Bool) (t : Token) (ts : List Token) :
    flagAfter b (t :: ts) = flagAfter t.kind.isBoundary ts := rfl

@[simp] theorem flagAfter_append (b : Bool) (ts us : List Token) :
    flagAfter b (ts ++ us) = flagAfter (flagAfter b ts) us := List.foldl_append

theorem flagAfter_mono {b : Bool} {ts : List Token} (h : flagAfter false ts = true) :
    flagAfter b ts = true := by
  cases ts with
  | nil => cases h
  | cons t ts => exact h

theorem exists_boundary {ts : List Token} (h : flagAfter false ts = true) :
    ∃ t ∈ ts, t.kind.isBoundary = true := by
  induction ts using List.reverseRecOn with
  | nil => cases h
  | append_singleton ts t =>
    rw [flagAfter_append] at h
    exact ⟨t, by simp, h⟩

/-- The categories whose phrases end at a boundary. -/
def Category.isClosed : Category → Bool
  | .statement | .block | .functionBody | .catchClause | .finallyClause => true
  | _ => false

/-- The part ends at a boundary. -/
def Part.isClosed : Part → Bool
  | .token kind => kind.isBoundary
  | .phrase c => c.isClosed

/-- The item ends at a boundary, if what comes before it does. -/
def Item.closes (b : Bool) : Item → Bool
  | .one p => p.isClosed
  | .optional ps | .repeated ps => b && ps.getLast?.any Part.isClosed
  | .list _ _ => false

/-- The items end at a boundary. -/
def itemsClose (is : List Item) : Bool := is.foldl Item.closes false

/-- The rules of closed categories end at boundaries. -/
theorem Rule.items_close {c : Category} (hc : c.isClosed = true) {r : Rule} (hr : r ∈ c.rules) :
    itemsClose r.items = true := by
  cases c <;> first | (cases hc; done) | (revert r; simp only [Category.rules]; decide)

section Closed

variable {Q : Category → Tree → Prop}
  (hQ : ∀ {c x}, Q c x → c.isClosed = true → flagAfter false x.tokens = true)
include hQ

theorem Part.Fits.closed {p : Part} {x : Tree} (h : p.Fits Q x) (hp : p.isClosed = true) :
    flagAfter false x.tokens = true := by
  cases p with
  | token kind =>
    obtain ⟨t, rfl, rfl⟩ := h
    exact hp
  | phrase c => exact hQ h hp

theorem partsFit_closed {ps : List Part} {xs : List Tree} (h : partsFit Q ps xs)
    (hps : ps.getLast?.any Part.isClosed = true) (b : Bool) :
    flagAfter b (Tree.tokensOfAll xs) = true := by
  induction ps generalizing xs b with
  | nil => cases hps
  | cons p ps ih =>
    obtain ⟨y, ys, rfl, hy, hys⟩ := h
    rw [Tree.tokensOfAll, flagAfter_append]
    cases ps with
    | nil =>
      obtain rfl : ys = [] := hys
      show flagAfter b y.tokens = true
      exact flagAfter_mono (hy.closed hQ hps)
    | cons q ps =>
      rw [List.getLast?_cons_cons] at hps
      exact ih hys hps _

theorem Item.Fits.closed {i : Item} {xs : List Tree} (h : i.Fits Q xs) {b : Bool}
    (hi : i.closes b = true) {b' : Bool} (hb : b = true → b' = true) :
    flagAfter b' (Tree.tokensOfAll xs) = true := by
  cases i with
  | one p =>
    obtain ⟨y, rfl, hy⟩ := h
    rw [Tree.tokensOfAll, Tree.tokensOfAll, List.append_nil]
    exact flagAfter_mono (hy.closed hQ hi)
  | optional ps =>
    obtain ⟨hb', hps⟩ := Bool.and_eq_true_iff.mp hi
    rcases h with rfl | h
    · exact hb hb'
    · exact partsFit_closed hQ h hps _
  | repeated ps =>
    obtain ⟨hb', hps⟩ := Bool.and_eq_true_iff.mp hi
    obtain ⟨groups, rfl, hgroups⟩ := h
    replace hb := hb hb'
    clear hi hb'
    induction groups generalizing b' with
    | nil => exact hb
    | cons g groups ih =>
      rw [List.flatten_cons, Tree.tokensOfAll_append, flagAfter_append]
      exact ih (fun g hg => hgroups g (List.mem_cons_of_mem _ hg))
        (partsFit_closed hQ (hgroups g (List.mem_cons_self ..)) hps _)
  | list => cases hi

theorem itemsFit_closed {is : List Item} {xs : List Tree} (h : itemsFit Q is xs) {b b' : Bool}
    (his : is.foldl Item.closes b = true) (hb : b = true → b' = true) :
    flagAfter b' (Tree.tokensOfAll xs) = true := by
  induction is generalizing xs b b' with
  | nil =>
    obtain rfl : xs = [] := h
    exact hb his
  | cons i is ih =>
    obtain ⟨ys, zs, rfl, hys, hzs⟩ := h
    rw [Tree.tokensOfAll_append, flagAfter_append]
    exact ih hzs his fun hi => hys.closed hQ hi hb

end Closed

/-- Phrases of closed categories end at a boundary. -/
theorem Formed.closed {depth : Nat} {c : Category} {x : Tree} (h : Formed depth c x)
    (hc : c.isClosed = true) : flagAfter false x.tokens = true := by
  induction depth generalizing c x with
  | zero => exact h.elim
  | succ depth ih =>
    replace h : FormedPhrase (Formed depth) c x := h
    cases h with
    | token accepted => cases c <;> first | (cases hc; done) | cases accepted
    | through predicted inner =>
      obtain h | ⟨_, -, h⟩ | ⟨d, hd, -⟩ := Category.predict_eq predicted
      · cases h
      · cases h
      · cases c <;> first | (cases hc; done) | cases hd
    | rule predicted items =>
      obtain h | ⟨r, hr, h⟩ | ⟨_, -, h⟩ := Category.predict_eq predicted
      · cases h
      · cases h
        exact itemsFit_closed (fun h hc => ih h hc) items (Rule.items_close hc hr) id
      · cases h
    | extended _ extension =>
      obtain ⟨-, ⟨_, _, rfl⟩ | rfl⟩ := Category.extension_eq extension
      · cases hc
      · cases hc

/-! ## Pruning -/

/-- The rules that list statements. -/
def Rule.lists : Rule → Bool
  | .block | .functionBody | .caseClause | .defaultClause => true
  | _ => false

/-- Some trees are pruned one by one, and where statements are listed, expression statements
after a boundary may be taken out. `b` says whether a boundary comes before. -/
inductive PrunesAll (P : Tree → List Tree → Tree → Prop) :
    (lists b : Bool) → List Tree → List Tree → List Tree → Prop
  | nil (lists b : Bool) : PrunesAll P lists b [] [] []
  | keep {lists b x gone x₀ xs more xs₀} (head : P x gone x₀)
      (tail : PrunesAll P lists (flagAfter b x.tokens) xs more xs₀) :
      PrunesAll P lists b (x :: xs) (gone ++ more) (x₀ :: xs₀)
  | drop {x t xs more xs₀} (semicolon : t.kind = .mark .semicolon)
      (tail : PrunesAll P true true xs more xs₀) :
      PrunesAll P true true (.node .expressionStatement [x, .leaf t] :: xs)
        (.node .expressionStatement [x, .leaf t] :: more) xs₀

/-- A tree is pruned of some statements, and its other tokens are exchanged. -/
inductive Prunes (R : Token → Token → Prop) : Tree → List Tree → Tree → Prop
  | leaf {t t₀ : Token} (h : R t t₀) : Prunes R (.leaf t) [] (.leaf t₀)
  | node {r : Rule} {parts gone parts₀ : List Tree}
      (h : PrunesAll (Prunes R) r.lists false parts gone parts₀) :
      Prunes R (.node r parts) gone (.node r parts₀)

/-- A tree that nothing is taken out of is kept. -/
theorem PrunesAll.keep_nil {P : Tree → List Tree → Tree → Prop} {lists b : Bool} {x x₀ : Tree}
    {xs more xs₀ : List Tree} (head : P x [] x₀)
    (tail : PrunesAll P lists (flagAfter b x.tokens) xs more xs₀) :
    PrunesAll P lists b (x :: xs) more (x₀ :: xs₀) := .keep head tail

theorem PrunesAll.refl (lists b : Bool) {xs : List Tree} (h : ∀ x ∈ xs, Prunes Eq x [] x) :
    PrunesAll (Prunes Eq) lists b xs [] xs := by
  induction xs generalizing b with
  | nil => exact .nil _ _
  | cons x xs ih =>
    exact .keep_nil (h x (List.mem_cons_self ..))
      (ih _ fun y hy => h y (List.mem_cons_of_mem _ hy))

theorem Prunes.refl (x : Tree) : Prunes Eq x [] x := by
  induction x using Tree.induction_on with
  | leaf t => exact .leaf rfl
  | node r parts ih => exact .node (.refl _ _ ih)

theorem PrunesAll.mem_gone {P : Tree → List Tree → Tree → Prop} {lists b : Bool}
    {xs gone xs₀ : List Tree} (h : PrunesAll P lists b xs gone xs₀)
    (hP : ∀ x ∈ xs, ∀ {gone x₀}, P x gone x₀ → ∀ y ∈ gone, ∃ x t,
      y = .node .expressionStatement [x, .leaf t]) :
    ∀ y ∈ gone, ∃ x t, y = .node .expressionStatement [x, .leaf t] := by
  induction h with
  | nil => exact fun y hy => absurd hy List.not_mem_nil
  | keep head _ ih =>
    intro y hy
    rcases List.mem_append.mp hy with hy | hy
    · exact hP _ (List.mem_cons_self ..) head y hy
    · exact ih (fun x hx => hP x (List.mem_cons_of_mem _ hx)) y hy
  | drop _ _ ih =>
    refine List.forall_mem_cons.mpr ⟨⟨_, _, rfl⟩, ?_⟩
    exact ih fun x hx => hP x (List.mem_cons_of_mem _ hx)

/-- What is taken out are expression statements. -/
theorem Prunes.mem_gone {R : Token → Token → Prop} {x x₀ : Tree} {gone : List Tree}
    (h : Prunes R x gone x₀) : ∀ y ∈ gone, ∃ x t, y = .node .expressionStatement [x, .leaf t] := by
  induction x using Tree.induction_on generalizing gone x₀ with
  | leaf t =>
    cases h
    exact fun y hy => absurd hy List.not_mem_nil
  | node r parts ih =>
    cases h with
    | node h => exact h.mem_gone fun x hx _ _ h => ih x hx h

/-- The first token of a tree is not taken out. -/
theorem Prunes.head {R : Token → Token → Prop} {x x₀ : Tree} {gone : List Tree}
    (h : Prunes R x gone x₀) : x.tokens = [] ∧ x₀.tokens = [] ∨
      ∃ t ts t₀ ts₀, x.tokens = t :: ts ∧ x₀.tokens = t₀ :: ts₀ ∧ R t t₀ := by
  induction x using Tree.induction_on generalizing gone x₀ with
  | leaf t =>
    cases h with
    | leaf h => exact .inr ⟨t, [], _, [], rfl, rfl, h⟩
  | node r parts ih =>
    cases h with
    | @node _ _ _ parts₀ h =>
      show Tree.tokensOfAll parts = [] ∧ Tree.tokensOfAll parts₀ = [] ∨
        ∃ t ts t₀ ts₀, Tree.tokensOfAll parts = t :: ts ∧ Tree.tokensOfAll parts₀ = t₀ :: ts₀ ∧
          R t t₀
      generalize r.lists = lists at h
      generalize hb : false = b at h
      induction h with
      | nil => exact .inl ⟨rfl, rfl⟩
      | @keep lists b x gone x₀ xs more xs₀ head tail ihs =>
        rcases ih x (List.mem_cons_self ..) head with ⟨hx, hx₀⟩ | ⟨t, ts, t₀, ts₀, hx, hx₀, ht⟩
        · simp only [Tree.tokensOfAll, hx, hx₀, List.nil_append]
          rw [hx] at ihs
          exact ihs (fun y hy => ih y (List.mem_cons_of_mem _ hy)) hb
        · simp only [Tree.tokensOfAll, hx, hx₀, List.cons_append]
          exact .inr ⟨t, _, t₀, _, rfl, rfl, ht⟩
      | drop => cases hb

/-! ### Cutting tokens -/

/-- Tokens are kept, or cut as statements after a boundary. `b` says whether a boundary comes
before. -/
inductive Cuts : Bool → List Token → List (List Token) → List Token → Prop
  | nil (b : Bool) : Cuts b [] [] []
  | keep {b t ts cut kept} (tail : Cuts t.kind.isBoundary ts cut kept) :
      Cuts b (t :: ts) cut (t :: kept)
  | cut {m ts cut kept} (last : ∃ t ∈ m.getLast?, t.kind = .mark .semicolon)
      (tail : Cuts true ts cut kept) : Cuts true (m ++ ts) (m :: cut) kept

theorem Cuts.mono {ts kept : List Token} {cut : List (List Token)} (h : Cuts false ts cut kept)
    (b : Bool) : Cuts b ts cut kept := by
  cases h with
  | nil => exact .nil b
  | keep tail => exact .keep tail

theorem flagAfter_of_getLast? {m : List Token}
    (h : ∃ t ∈ m.getLast?, t.kind = .mark .semicolon) (b : Bool) : flagAfter b m = true := by
  obtain ⟨t, ht, hkind⟩ := h
  obtain ⟨ms, rfl⟩ := List.getLast?_eq_some_iff.mp ht
  rw [flagAfter_append, flagAfter_cons, hkind]
  rfl

theorem Cuts.append {b : Bool} {ts kept ts' kept' : List Token} {cut cut' : List (List Token)}
    (h : Cuts b ts cut kept) (h' : Cuts (flagAfter b ts) ts' cut' kept') :
    Cuts b (ts ++ ts') (cut ++ cut') (kept ++ kept') := by
  induction h with
  | nil => exact h'
  | keep _ ih => exact .keep (ih h')
  | cut last _ ih =>
    rw [flagAfter_append, flagAfter_of_getLast? last] at h'
    rw [List.append_assoc, List.cons_append]
    exact .cut last (ih h')

/-- Tokens that statements are cut from are woven of what is kept and what is cut. -/
theorem Cuts.exists_turns {b : Bool} {ts left : List Token} {cut : List (List Token)}
    (h : Cuts b ts cut left) {before : List Token}
    (hbefore : b = true → ∀ t ∈ before.getLast?, t.kind.isBoundary = true) :
    ∃ turns last, before ++ ts = woven turns last ∧ before ++ left = kept turns last ∧
      turns.map Prod.snd = cut ∧ ∀ t ∈ turns, CutsStatement t := by
  induction h generalizing before with
  | nil => exact ⟨[], before, List.append_nil _, List.append_nil _, rfl, by simp⟩
  | @keep b t ts cut left _ ih =>
    obtain ⟨turns, last, hts, hleft, hcut, hturns⟩ := @ih (before ++ [t]) (by simp)
    rw [List.append_assoc] at hts hleft
    exact ⟨turns, last, hts, hleft, hcut, hturns⟩
  | @cut m ts cut left hlast _ ih =>
    obtain ⟨turns, last, hts, hleft, hcut, hturns⟩ := @ih [] (by simp)
    rw [List.nil_append] at hts hleft
    refine ⟨(before, m) :: turns, last, by rw [woven, hts], by rw [kept, hleft], ?_, ?_⟩
    · rw [List.map_cons, hcut]
    · exact List.forall_mem_cons.mpr ⟨⟨hbefore rfl, hlast⟩, hturns⟩

theorem PrunesAll.cuts {P : Tree → List Tree → Tree → Prop} {lists b : Bool}
    {xs gone xs₀ : List Tree} (h : PrunesAll P lists b xs gone xs₀)
    (hP : ∀ x ∈ xs, ∀ {gone x₀}, P x gone x₀ →
      Cuts false x.tokens (gone.map Tree.tokens) x₀.tokens) :
    Cuts b (Tree.tokensOfAll xs) (gone.map Tree.tokens) (Tree.tokensOfAll xs₀) := by
  induction h with
  | nil _ b => exact .nil b
  | keep head _ ih =>
    rw [List.map_append]
    exact ((hP _ (List.mem_cons_self ..) head).mono _).append
      (ih fun x hx => hP x (List.mem_cons_of_mem _ hx))
  | @drop x t xs more xs₀ semicolon _ ih =>
    refine .cut ⟨t, ?_, semicolon⟩ (ih fun x hx => hP x (List.mem_cons_of_mem _ hx))
    simp [Tree.tokens, Tree.tokensOfAll]

/-- Pruning cuts the statements that are taken out. -/
theorem Prunes.cuts {x x₀ : Tree} {gone : List Tree} (h : Prunes Eq x gone x₀) :
    Cuts false x.tokens (gone.map Tree.tokens) x₀.tokens := by
  induction x using Tree.induction_on generalizing gone x₀ with
  | leaf t =>
    cases h with
    | leaf h => exact h ▸ .keep (.nil _)
  | node r parts ih =>
    cases h with
    | node h => exact h.cuts fun x hx _ _ h => ih x hx h

/-! ### Tokens that are the same up to a boundary -/

/-- The kinds of two lists of tokens are the same up to the first boundary. -/
inductive Alike : List Token → List Token → Prop
  | nil : Alike [] []
  | boundary {t t' ts ts'} (kind : t.kind = t'.kind) (h : t.kind.isBoundary = true) :
      Alike (t :: ts) (t' :: ts')
  | cons {t t' ts ts'} (kind : t.kind = t'.kind) (tail : Alike ts ts') :
      Alike (t :: ts) (t' :: ts')

theorem Alike.append {ts ts' us us' : List Token} (h : Alike ts ts') (hu : Alike us us') :
    Alike (ts ++ us) (ts' ++ us') := by
  induction h with
  | nil => exact hu
  | boundary kind h => exact .boundary kind h
  | cons kind _ ih => exact .cons kind ih

/-- What comes after a boundary does not matter. -/
theorem Alike.append_of_boundary {ts ts' : List Token} (h : Alike ts ts')
    (hts : ∃ t ∈ ts, t.kind.isBoundary = true) (us us' : List Token) :
    Alike (ts ++ us) (ts' ++ us') := by
  induction h with
  | nil =>
    obtain ⟨t, ht, -⟩ := hts
    exact absurd ht List.not_mem_nil
  | boundary kind h => exact .boundary kind h
  | @cons t t' ts ts' kind _ ih =>
    obtain ⟨u, hu, hboundary⟩ := hts
    rcases List.mem_cons.mp hu with rfl | hu
    · exact .boundary kind hboundary
    · exact .cons kind (ih ⟨u, hu, hboundary⟩)

theorem Alike.nextKind_eq {ts ts' : List Token} (h : Alike ts ts') :
    nextKind? ts = nextKind? ts' := by
  cases h with
  | nil => rfl
  | boundary kind => exact congrArg some kind
  | cons kind => exact congrArg some kind

section

variable {R : Token → Token → Prop} (hR : ∀ {t t'}, R t t' → t.kind = t'.kind)
include hR

/-- Up to the first boundary the tokens of a tree that is pruned stay as they are. -/
theorem Prunes.alike {x x₀ : Tree} {gone : List Tree} (h : Prunes R x gone x₀) :
    Alike x.tokens x₀.tokens := by
  induction x using Tree.induction_on generalizing gone x₀ with
  | leaf t =>
    cases h with
    | leaf h => exact .cons (hR h) .nil
  | node r parts ih =>
    cases h with
    | node h =>
      show Alike (Tree.tokensOfAll parts) (Tree.tokensOfAll _)
      generalize r.lists = lists at h
      generalize hb : false = b at h
      induction h with
      | nil => exact .nil
      | @keep lists b x gone x₀ xs more xs₀ head tail ihs =>
        have hx := ih x (List.mem_cons_self ..) head
        subst hb
        cases hflag : flagAfter false x.tokens with
        | true => exact hx.append_of_boundary (exists_boundary hflag) _ _
        | false =>
          exact hx.append (ihs (fun y hy => ih y (List.mem_cons_of_mem _ hy)) hflag.symm)
      | drop => cases hb

end

end SuperForward.Script
