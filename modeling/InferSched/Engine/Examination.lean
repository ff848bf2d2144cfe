import InferSched.Engine.TokenBudget

/-! # Candidates examined

A candidate that `AdmitReady` pops is rejected, put aside, or examined: it is looked up in
the result cache and, if there is no result, its prompt is allocated. The loop around
`Allocate` evicts a prefix and looks for the longest cached prefix again after every
attempt that finds too few free blocks. `examinations` lists the examinations of an
iteration, and `Retry` is one turn of the loop around `Allocate`.
-/

namespace InferSched.Engine

open Library

/-- A candidate, the engine that examines it, and the scan it is part of. -/
structure Examination (η : Type) where
  candidate : EngineRequest
  engine : ContinuousEngine η
  scan : Scan

/-- An attempt to allocate a prompt: the prefix found in the cache, and the engine. -/
structure Attempt (η : Type) where
  matched : Option (List BlockId)
  engine : ContinuousEngine η

namespace ContinuousEngine

open Moment

variable {η : Type}

/-- One more attempt: the free blocks did not suffice, a prefix was evicted, and the
longest cached prefix was looked for again. -/
def Retry (candidate : EngineRequest) (before after : Attempt η) : Prop :=
  (before.engine.kvCache.allocate candidate.requestId (before.engine.promptBlocks candidate)
    (before.matched.getD [])).1 = .insufficientBlocks ∧
  before.engine.evictOldest.1 = true ∧
  after = ⟨(before.engine.evictOldest.2.matchPrefix candidate).1,
    (before.engine.evictOldest.2.matchPrefix candidate).2⟩

variable [RequestQueue η]

/-- The examinations of a scan, in order. -/
def examinationsFrom : ℕ → ContinuousEngine η → Scan → List (Examination η)
  | 0, _, _ => []
  | remaining + 1, engine, scan =>
      if engine.active.length < engine.config.maxBatchSequences then
        match RequestQueue.popReady engine.pending engine.clock with
        | none => []
        | some (candidate, rest) =>
            let engine := { engine with pending := rest }
            let turn := engine.considerCandidate candidate scan
            (if engine.Examines candidate scan then [⟨candidate, engine, scan⟩] else []) ++
              if turn.1 then examinationsFrom remaining turn.2.1 turn.2.2 else []
      else []

/-- The examinations of an iteration. -/
def examinations (engine : ContinuousEngine η) : List (Examination η) :=
  examinationsFrom (PriorityQueue.size engine.begun.pending) engine.begun {}

/-- The engine keeps its invariant up to every examination, and has room in the batch. -/
theorem examinationsFrom_invariant (remaining : ℕ) {engine : ContinuousEngine η} (scan : Scan)
    (invariant : engine.Invariant false) :
    ∀ examination ∈ examinationsFrom remaining engine scan,
      examination.engine.Invariant false ∧
        examination.engine.config = engine.config ∧
        examination.engine.active.length < engine.config.maxBatchSequences := by
  induction remaining generalizing engine scan with
  | zero => exact List.forall_mem_nil _
  | succ remaining ih =>
      intro examination member
      unfold examinationsFrom at member
      split at member
      · next room =>
          split at member
          · cases member
          · next candidate rest popped =>
              have queued : Invariant { engine with pending := rest } false :=
                invariant.congr rfl rfl rfl rfl
              have turn := considerCandidate_steps candidate scan queued room
              rcases List.mem_append.mp member with here | later
              · split at here
                · rw [List.mem_singleton.mp here]
                  exact ⟨queued, rfl, room⟩
                · cases here
              · split at later
                · obtain ⟨valid, config, space⟩ := ih _ (Steps.invariant turn queued) _ later
                  rw [(Steps.fixed turn queued).1] at config space
                  exact ⟨valid, config, space⟩
                · cases later
      · cases member

/-- Every examination of an iteration. -/
theorem Invariant.examination {engine : ContinuousEngine η} (invariant : engine.Invariant false)
    {examination : Examination η} (member : examination ∈ engine.examinations) :
    examination.engine.Invariant false ∧ examination.engine.config = engine.config ∧
      examination.engine.active.length < engine.config.maxBatchSequences := by
  have holds := examinationsFrom_invariant _ {} invariant.begun examination member
  rw [config_begun] at holds
  exact holds

end ContinuousEngine

namespace Examination

variable {η : Type}

/-- The first attempt to allocate the prompt. -/
def firstAttempt (examination : Examination η) : Attempt η :=
  let asked := (examination.engine.lookupResult examination.candidate).2
  ⟨(asked.matchPrefix examination.candidate).1, (asked.matchPrefix examination.candidate).2⟩

/-- The attempts to allocate the prompt, when there is no cached result. -/
def Attempts (examination : Examination η) (attempt : Attempt η) : Prop :=
  (examination.engine.lookupResult examination.candidate).1 = none ∧
    Relation.ReflTransGen (ContinuousEngine.Retry examination.candidate)
      examination.firstAttempt attempt

end Examination
end InferSched.Engine
