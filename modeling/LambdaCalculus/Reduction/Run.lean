import LambdaCalculus.Reduction.Basic

/-!
# Running a reduction

The head of the term is contracted with the first argument of its spine until
the head is no abstraction or the spine is empty.  The full strategy goes on
under the binder of an abstraction and, from left to right, in the arguments
of a variable.  A run need not end, so it is given a fuel that bounds the
recursion.

What a contraction does is a parameter of a run, and it may be undefined for
some redexes.  A run of a plan contracts as the strategy does with unbounded
indices, which is always defined; `none` then says that the fuel did not
suffice.
-/

namespace LambdaCalculus

/-- The contraction that a strategy performs.  The head strategy never goes
under a binder, where verbatim substitution serves closed programs. -/
def Strategy.contract : Strategy -> Term -> Term -> Term
  | .weakHead, body, argument => body.substitute 0 argument
  | .full, body, argument => body.instantiate argument

/-- What an abstraction with the first term as its body comes to with the
second as its argument. -/
abbrev Contraction := Term -> Term -> Option Term

/-- A strategy contracts every redex. -/
def Strategy.contraction (strategy : Strategy) : Contraction :=
  fun body argument => some (strategy.contract body argument)

/-- Why a run comes to no result. -/
inductive Interruption
  | outOfFuel
  /-- The contraction of a redex is undefined. -/
  | undefined
  deriving Repr, DecidableEq

namespace Plan

/-- Records a contraction if the plan asks for it. -/
def observe
    (plan : Plan)
    (progress : Progress)
    (head : Term)
    (spine : Spine) : Progress :=
  if plan.traced then
    { progress with
      observations :=
        ⟨progress.steps, spine.rebuild head⟩ :: progress.observations }
  else
    progress

/-- Contracts at the head until there is no redex or a budget is used up.
Gives the head and the arguments that are still pending. -/
def headRunBy
    (contract : Contraction)
    (plan : Plan) :
    Nat -> Term -> Spine -> Progress ->
      Except Interruption (Term × Spine × Progress)
  | 0, _, _, _ => .error .outOfFuel
  | fuel + 1, term, pending, progress =>
      match term.unwind pending with
      | (.abs span declared body, frame :: rest) =>
          if plan.budget.stepsExhausted progress.steps then
            .ok (.abs span declared body, frame :: rest,
              { progress with status := .stepLimit })
          else
            match contract body frame.argument with
            | none => .error .undefined
            | some next =>
                let counted := { progress with steps := progress.steps + 1 }
                if plan.budget.nodesExceeded next rest then
                  .ok (next, rest, { counted with status := .sizeLimit })
                else
                  headRunBy contract plan fuel next rest
                    (plan.observe counted next rest)
      | (head, spine) => .ok (head, spine, progress)

/-- Marks a finished head run as stuck when a variable stands in front of its
arguments. -/
def settle
    (head : Term)
    (spine : Spine)
    (progress : Progress) : Progress :=
  match head, spine, progress.status with
  | .var _ _, _ :: _, .normal => { progress with status := .stuck }
  | _, _, _ => progress

mutual

/-- Contracts everywhere in a term, leftmost outermost redex first. -/
def normalizeBy
    (contract : Contraction)
    (plan : Plan) :
    Nat -> Term -> Progress -> Except Interruption (Term × Progress)
  | 0, _, _ => .error .outOfFuel
  | fuel + 1, term, progress => do
      let (head, spine, progress) ←
        headRunBy contract plan fuel term [] progress
      if progress.status = .normal then
        match head with
        | .abs span declared body =>
            let (body, progress) ← normalizeBy contract plan fuel body progress
            return (spine.rebuild (.abs span declared body), progress)
        | head =>
            let (spine, progress) ←
              normalizeSpineBy contract plan fuel spine progress
            return (spine.rebuild head, progress)
      else
        return (spine.rebuild head, progress)

/-- Contracts everywhere in the arguments of a spine, first argument first;
once a budget is used up the others stay as they are. -/
def normalizeSpineBy
    (contract : Contraction)
    (plan : Plan) :
    Nat -> Spine -> Progress -> Except Interruption (Spine × Progress)
  | 0, _, _ => .error .outOfFuel
  | _ + 1, [], progress => .ok ([], progress)
  | fuel + 1, frame :: rest, progress => do
      if progress.status = .normal then
        let (argument, progress) ←
          normalizeBy contract plan fuel frame.argument progress
        let (rest, progress) ←
          normalizeSpineBy contract plan fuel rest progress
        return ({ frame with argument := argument } :: rest, progress)
      else
        return (frame :: rest, progress)

end

/-- A run on a term. -/
def runBy
    (contract : Contraction)
    (plan : Plan)
    (fuel : Nat)
    (term : Term) : Except Interruption Outcome :=
  match plan.strategy with
  | .weakHead =>
      (headRunBy contract plan fuel term [] .start).map
        fun (head, spine, progress) =>
          (settle head spine progress).outcome (spine.rebuild head)
  | .full =>
      (normalizeBy contract plan fuel term .start).map
        fun (term, progress) => progress.outcome term

/-! ## Runs with unbounded indices -/

/-- A head run as the strategy contracts. -/
def headRun
    (plan : Plan)
    (fuel : Nat)
    (term : Term)
    (pending : Spine)
    (progress : Progress) : Option (Term × Spine × Progress) :=
  (headRunBy plan.strategy.contraction plan fuel term pending
    progress).toOption

/-- Normalization as the strategy contracts. -/
def normalize
    (plan : Plan)
    (fuel : Nat)
    (term : Term)
    (progress : Progress) : Option (Term × Progress) :=
  (normalizeBy plan.strategy.contraction plan fuel term progress).toOption

/-- Normalization of arguments as the strategy contracts. -/
def normalizeSpine
    (plan : Plan)
    (fuel : Nat)
    (spine : Spine)
    (progress : Progress) : Option (Spine × Progress) :=
  (normalizeSpineBy plan.strategy.contraction plan fuel spine
    progress).toOption

/-- A run as the strategy contracts. -/
def run
    (plan : Plan)
    (fuel : Nat)
    (term : Term) : Option Outcome :=
  (runBy plan.strategy.contraction plan fuel term).toOption

/-- A sequence of two computations has a result if both have one. -/
theorem toOption_bind
    (first : Except Interruption α)
    (second : α -> Except Interruption β) :
    (first >>= second).toOption =
      first.toOption.bind fun value => (second value).toOption := by
  cases first <;> rfl

/-- One round of a head run. -/
theorem headRun_succ
    (plan : Plan)
    (fuel : Nat)
    (term : Term)
    (pending : Spine)
    (progress : Progress) :
    plan.headRun (fuel + 1) term pending progress =
      match term.unwind pending with
      | (.abs span declared body, frame :: rest) =>
          if plan.budget.stepsExhausted progress.steps then
            some (.abs span declared body, frame :: rest,
              { progress with status := .stepLimit })
          else
            let next := plan.strategy.contract body frame.argument
            let counted := { progress with steps := progress.steps + 1 }
            if plan.budget.nodesExceeded next rest then
              some (next, rest, { counted with status := .sizeLimit })
            else
              plan.headRun fuel next rest (plan.observe counted next rest)
      | (head, spine) => some (head, spine, progress) := by
  rw [headRun, headRunBy]
  split
  next =>
      split
      next => rfl
      next =>
          simp only [Strategy.contraction]
          split
          next => rfl
          next => rfl
  next => rfl

/-- One level of normalization. -/
theorem normalize_succ
    (plan : Plan)
    (fuel : Nat)
    (term : Term)
    (progress : Progress) :
    plan.normalize (fuel + 1) term progress =
      match plan.headRun fuel term [] progress with
      | none => none
      | some (head, spine, progress) =>
          if progress.status = .normal then
            match head with
            | .abs span declared body =>
                match plan.normalize fuel body progress with
                | none => none
                | some (body, progress) =>
                    some (spine.rebuild (.abs span declared body), progress)
            | head =>
                match plan.normalizeSpine fuel spine progress with
                | none => none
                | some (spine, progress) => some (spine.rebuild head, progress)
          else
            some (spine.rebuild head, progress) := by
  rw [normalize, normalizeBy, toOption_bind, ← headRun]
  cases plan.headRun fuel term [] progress with
  | none => rfl
  | some reached =>
      obtain ⟨head, spine, reached⟩ := reached
      simp only [Option.bind_some]
      split
      next =>
          cases head with
          | abs span declared body =>
              simp only [toOption_bind]
              rw [← normalize]
              cases plan.normalize fuel body reached <;> rfl
          | var span index =>
              simp only [toOption_bind]
              rw [← normalizeSpine]
              cases plan.normalizeSpine fuel spine reached <;> rfl
          | app span function argument =>
              simp only [toOption_bind]
              rw [← normalizeSpine]
              cases plan.normalizeSpine fuel spine reached <;> rfl
      next => rfl

/-- The first of several arguments. -/
theorem normalizeSpine_succ
    (plan : Plan)
    (fuel : Nat)
    (frame : Frame)
    (rest : Spine)
    (progress : Progress) :
    plan.normalizeSpine (fuel + 1) (frame :: rest) progress =
      if progress.status = .normal then
        match plan.normalize fuel frame.argument progress with
        | none => none
        | some (argument, progress) =>
            match plan.normalizeSpine fuel rest progress with
            | none => none
            | some (rest, progress) =>
                some ({ frame with argument := argument } :: rest, progress)
      else
        some (frame :: rest, progress) := by
  rw [normalizeSpine, normalizeSpineBy]
  split
  next =>
      rw [toOption_bind, ← normalize]
      cases plan.normalize fuel frame.argument progress with
      | none => rfl
      | some first =>
          simp only [Option.bind_some, toOption_bind]
          rw [← normalizeSpine]
          cases plan.normalizeSpine fuel rest first.2 <;> rfl
  next => rfl

theorem run_weakHead
    {plan : Plan}
    (weakHead : plan.strategy = .weakHead)
    (fuel : Nat)
    (term : Term) :
    plan.run fuel term =
      (plan.headRun fuel term [] .start).map fun (head, spine, progress) =>
        (settle head spine progress).outcome (spine.rebuild head) := by
  rw [run, runBy, headRun, weakHead]
  cases headRunBy Strategy.weakHead.contraction plan fuel term [] .start <;> rfl

theorem run_full
    {plan : Plan}
    (full : plan.strategy = .full)
    (fuel : Nat)
    (term : Term) :
    plan.run fuel term =
      (plan.normalize fuel term .start).map fun (term, progress) =>
        progress.outcome term := by
  rw [run, runBy, normalize, full]
  cases normalizeBy Strategy.full.contraction plan fuel term .start <;> rfl

end Plan
end LambdaCalculus
