import ApiDoc.Proofs.Syntax.Run
import ApiDoc.Syntax.Grammar.TypeDef

/-!
# Counting the bodies around the cursor

The grammar passes the levels that are left from each body to those inside it. A reader can as well
keep a count of the bodies that it is in: a body that starts at a full count is an error, and any
other one adds to the count and takes it back when it ends, well or with an error. `Counted.body`
does so with the declarations of the grammar, which are read in any monad that runs parsers.
`Counted.agrees_body` says that this is the same: a body that starts at the count `n` is read as
`Grammar.body` reads it with `maxNesting - n` levels left, and whatever comes of it, the count is
`n` again.
-/

namespace ApiDoc.Syntax

open ApiDoc.Syntax.Parser (Step)

/-- A parser that keeps a count beside the cursor. -/
abbrev Counted (α : Type) := EStateM ParseError (Cursor × Nat) α

namespace Counted

variable {σ α β γ : Type} {n : Nat}

/-! ## Counts -/

/-- The result of a parser, with a count beside the cursor. -/
def attach (n : Nat) :
    EStateM.Result ParseError Cursor α → EStateM.Result ParseError (Cursor × Nat) α
  | .ok a d => .ok a (d, n)
  | .error error d => .error error (d, n)

/-- A parser that knows of no count. -/
def lift (p : Parser α) : Counted α := fun (c, n) => attach n (p c)

/-- Run rounds of `body` from `state` until one stops, as `Parser.iterateFrom` does. -/
def iterateFrom (body : σ → Counted (Step σ α)) (state : σ) (s : Cursor × Nat) :
    EStateM.Result ParseError (Cursor × Nat) α :=
  match body state s with
  | .error error t => .error error t
  | .ok (.done result) t => .ok result t
  | .ok (.next state') t =>
    if t.1.remaining < s.1.remaining then iterateFrom body state' t
    else .error ⟨t.1.pos, .stalled⟩ t
termination_by s.1.remaining

/-- Run rounds of `body` until one stops. -/
def iterate (state : σ) (body : σ → Counted (Step σ α)) : Counted α :=
  fun s => iterateFrom body state s

/-- Run `p` with one more on the count, and take that back. A full count is an error. -/
def within (p : Counted α) : Counted α := fun (c, n) =>
  if n ≥ maxNesting then .error ⟨c.pos, .nestedTooDeep⟩ (c, n)
  else
    match p (c, n + 1) with
    | .ok a (d, m) => .ok a (d, m - 1)
    | .error error (d, m) => .error error (d, m - 1)

instance : MonadParser Counted := ⟨lift, iterate⟩

section

variable {κ : Type} (g : Grammar κ)

/-- Take the body of a type, with at most `calls` calls inside each other. -/
def body : (calls : Nat) → Grammar.BodyReader Counted κ
  | 0 => fun _ _ => (do throw ⟨← Parser.pos, .stalled⟩ : Parser (Tree κ))
  | calls + 1 => fun className isEnum => within (g.members (body calls) className isEnum)

/-- Take a type declaration at the top of a file. -/
def topTypeDef (start : Cursor) (modifiers : Tree κ) : Counted (Tree κ) :=
  g.typeDef (body g (maxNesting + 1)) start modifiers

end

/-! ## Agreement -/

/-- From the count `n`, `p` does what `q` does, and the count is `n` afterwards. -/
def Agrees (n : Nat) (p : Counted α) (q : Parser α) : Prop := ∀ c, p (c, n) = attach n (q c)

namespace Agrees

variable {p p' : Counted α} {q q' : Parser α}

theorem lift (q : Parser α) : Agrees n (liftM q) q := fun _ => rfl

theorem pure (a : α) : Agrees n (Pure.pure a) (Pure.pure a : Parser α) := fun _ => rfl

theorem bind {k : α → Counted β} {l : α → Parser β} (hp : Agrees n p q)
    (hk : ∀ a, Agrees n (k a) (l a)) : Agrees n (p >>= k) (q >>= l) := by
  intro c
  show EStateM.bind p k (c, n) = attach n (EStateM.bind q l c)
  unfold EStateM.bind
  rw [hp c]
  cases q c with
  | ok a d => exact hk a d
  | error error d => rfl

/-- A parser that knows of no count, and what comes behind it. -/
theorem seq {k : α → Counted β} {l : α → Parser β} (hk : ∀ a, Agrees n (k a) (l a)) :
    Agrees n (liftM q >>= k) (q >>= l) :=
  (lift q).bind hk

theorem ite {b : Prop} [Decidable b] (hp : Agrees n p q) (hp' : Agrees n p' q') :
    Agrees n (if b then p else p') (if b then q else q') := by
  split
  · exact hp
  · exact hp'

/-- A step that is left out at times, and what comes behind it. -/
theorem guarded {b : Prop} [Decidable b] {q : Parser Unit} {k : Unit → Counted β}
    {l : Unit → Parser β} (hk : ∀ a, Agrees n (k a) (l a)) :
    Agrees n (if b then liftM q >>= k else k ()) (if b then q >>= l else l ()) :=
  .ite (.seq hk) (hk ())

/-- A part that may be missing, and what comes behind it. -/
theorem optional {b : Prop} [Decidable b] {f : α → β} {none : β} {k : β → Counted γ}
    {l : β → Parser γ} (hp : Agrees n p q) (hk : ∀ a, Agrees n (k a) (l a)) :
    Agrees n (if b then p >>= fun a => Pure.pure (f a) >>= k else Pure.pure none >>= k)
      (if b then q >>= fun a => Pure.pure (f a) >>= l else Pure.pure none >>= l) :=
  .ite (hp.bind fun a => (pure (f a)).bind hk) ((pure none).bind hk)

/-- Rounds that agree repeat alike. -/
theorem iterate {body : σ → Counted (Step σ α)} {other : σ → Parser (Step σ α)}
    (h : ∀ s, Agrees n (body s) (other s)) (s : σ) :
    Agrees n (Counted.iterate s body) (Parser.iterate s other) := by
  intro c
  show iterateFrom body s (c, n) = attach n (Parser.iterateFrom other s c)
  fun_induction Parser.iterateFrom other s c with
  | case1 s c error e hround =>
    rw [iterateFrom, h s c, hround]
    rfl
  | case2 s c result e hround =>
    rw [iterateFrom, h s c, hround]
    rfl
  | case3 s c s' e hround hlt ih =>
    rw [iterateFrom, h s c, hround]
    exact (if_pos hlt).trans ih
  | case4 s c s' e hround hlt =>
    rw [iterateFrom, h s c, hround]
    exact if_neg hlt

/-- Below a full count, what agrees one higher up is taken back. -/
theorem within (hn : n < maxNesting) (h : Agrees (n + 1) p q) : Agrees n (Counted.within p) q := by
  intro c
  have hrun : Counted.within p (c, n) = match p (c, n + 1) with
      | .ok a (d, m) => .ok a (d, m - 1)
      | .error error (d, m) => .error error (d, m - 1) := if_neg (by omega)
  rw [hrun, h c]
  cases q c with
  | ok a d => rfl
  | error error d => rfl

end Agrees

/-! ## Bodies -/

section

variable {κ : Type} {g : Grammar κ} {inside : Grammar.BodyReader Counted κ}
  {other : Grammar.BodyParser κ}
  (h : ∀ className isEnum, Agrees n (inside className isEnum) (other className isEnum))
include h

theorem agrees_typeDef (start : Cursor) (modifiers : Tree κ) :
    Agrees n (g.typeDef inside start modifiers) (g.typeDef other start modifiers) := by
  unfold Grammar.typeDef
  simp only [Parser.monadLift_eq]
  refine .seq fun keyword => ?_
  refine .seq fun name => ?_
  refine .seq fun _ => ?_
  refine .optional (.lift _) fun parameters => ?_
  refine .seq fun _ => ?_
  refine .seq fun extended => ?_
  refine .seq fun implemented => ?_
  exact (h name keyword.2).bind fun body => .pure _

theorem agrees_enumConstant : Agrees n (g.enumConstant inside) (g.enumConstant other) := by
  unfold Grammar.enumConstant
  simp only [Parser.monadLift_eq]
  refine .seq fun start => ?_
  refine .seq fun annotations => ?_
  refine .seq fun name => ?_
  refine .seq fun _ => ?_
  refine .optional (.lift _) fun arguments => ?_
  refine .seq fun _ => ?_
  exact .optional (h "" false) fun body => .pure _

theorem agrees_constantsRound (found : List (Tree κ)) :
    Agrees n (g.constantsRound inside found) (g.constantsRound other found) := by
  unfold Grammar.constantsRound
  simp only [Parser.monadLift_eq]
  refine .seq fun _ => ?_
  refine .seq fun _ => ?_
  refine .ite (.pure _) ?_
  refine .seq fun _ => ?_
  refine .ite (.pure _) ?_
  refine (agrees_enumConstant h).bind fun constant => ?_
  refine .seq fun _ => ?_
  refine .seq fun _ => ?_
  refine .ite (.pure _) ?_
  exact .seq fun _ => .pure _

theorem agrees_member (className : String) :
    Agrees n (g.member inside className) (g.member other className) := by
  unfold Grammar.member
  simp only [Parser.monadLift_eq]
  refine .seq fun start => ?_
  apply Agrees.ite
  · exact .seq fun _ => .pure _
  apply Agrees.ite
  · exact .seq fun _ => .seq fun _ => .seq fun _ => .pure _
  refine .seq fun modifiers => ?_
  refine .seq fun _ => ?_
  apply Agrees.ite
  · exact (agrees_typeDef h start modifiers).bind fun _ => .pure _
  · exact .lift _

theorem agrees_membersRound (className : String) (found : List (Tree κ)) :
    Agrees n (g.membersRound inside className found) (g.membersRound other className found) := by
  unfold Grammar.membersRound
  simp only [Parser.monadLift_eq]
  refine .seq fun _ => ?_
  refine .seq fun _ => ?_
  refine .ite (.pure _) ?_
  refine .seq fun _ => ?_
  refine .guarded fun _ => ?_
  exact (agrees_member h className).bind fun more => .pure _

theorem agrees_members (className : String) (isEnum : Bool) :
    Agrees n (g.members inside className isEnum) (g.members other className isEnum) := by
  unfold Grammar.members
  simp only [Parser.monadLift_eq]
  have hrest : ∀ (start : Token) (constants : List (Tree κ)), Agrees n (do
      let found ← MonadParser.iterate constants (g.membersRound inside className)
      return (g.leaf .objBlock "" start.pos).withChildren found) (do
      let found ← Parser.iterate constants (g.membersRound other className)
      return (g.leaf .objBlock "" start.pos).withChildren found) := fun start constants =>
    .bind (.iterate (agrees_membersRound h className) constants) fun found => .pure _
  refine .seq fun start => ?_
  cases isEnum with
  | true => exact .bind (.iterate (agrees_constantsRound h) []) (hrest start)
  | false => exact (Agrees.pure []).bind (hrest start)

end

variable {κ : Type} {g : Grammar κ}

/-- A body that starts at the count `n` may nest `maxNesting - n` deep, and ends at that count. -/
theorem agrees_body {calls : Nat} (h : maxNesting - n < calls) (className : String)
    (isEnum : Bool) :
    Agrees n (body g calls className isEnum) (g.body (maxNesting - n) className isEnum) := by
  induction calls generalizing n className isEnum with
  | zero => omega
  | succ calls ih =>
    by_cases hn : n < maxNesting
    · obtain ⟨levels, hlevels⟩ : ∃ levels, maxNesting - n = levels + 1 :=
        ⟨maxNesting - n - 1, by omega⟩
      have hinside : maxNesting - (n + 1) = levels := by omega
      rw [hlevels]
      refine .within hn (agrees_members (fun className isEnum => ?_) className isEnum)
      rw [← hinside]
      exact ih (by omega) className isEnum
    · -- no level is left, and the count is full
      intro c
      have hlevels : maxNesting - n = 0 := by omega
      rw [hlevels]
      exact if_pos (by omega)

theorem agrees_topTypeDef (start : Cursor) (modifiers : Tree κ) :
    Agrees 0 (topTypeDef g start modifiers) (g.topTypeDef start modifiers) :=
  agrees_typeDef (agrees_body (Nat.lt_succ_self _)) start modifiers

end Counted

end ApiDoc.Syntax
