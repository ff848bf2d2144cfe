import Mathlib.Logic.Relation
import InferSched.Engine.ContinuousEngine
import InferSched.Engine.RadixInvariant

/-! # The steps of the engine

An iteration of the continuous engine is a long computation with several loops,
and a property of the engine usually depends on few of its parts. `Moment.Step`
lists the elementary things an iteration does, each with the guards under which
the source does it: a candidate is popped, answered, rejected or admitted, a
prefix is evicted, a sequence grows, is preempted, decoded or completed. A
property kept by every step is then kept by every iteration.
-/

namespace InferSched.Engine

open Library

/-- A moment within or between the calls: the engine, the scan for requests to
admit, which holds the requests it has popped, and whether the batch is being
given blocks. -/
structure Moment (η : Type) where
  engine : ContinuousEngine η
  scan : Scan
  preparing : Bool

namespace Moment

variable {η : Type} [RequestQueue η]

/-- The moment between two calls. -/
def rest (engine : ContinuousEngine η) : Moment η :=
  ⟨engine, {}, false⟩

/-- The elementary steps. A candidate under consideration is the last request the
scan holds; to defer it is to leave it there. -/
inductive Step : Moment η → Moment η → Prop
  | forgive {engine : ContinuousEngine η} (empty : engine.active = []) :
      Step (rest engine) (rest { engine with preemptedRequests := ∅ })
  | pop {engine : ContinuousEngine η} {scan : Scan} {candidate : EngineRequest} {queue : η}
      (room : engine.active.length < engine.config.maxBatchSequences)
      (popped : RequestQueue.popReady engine.pending engine.clock = some (candidate, queue)) :
      Step ⟨engine, scan, false⟩ ⟨{ engine with pending := queue }, scan.defer candidate, false⟩
  | reject {engine : ContinuousEngine η} {scan : Scan} {candidate : EngineRequest} {reason : Text}
      (impossible : engine.impossibleReason candidate = some reason) :
      Step ⟨engine, scan.defer candidate, false⟩
        ⟨engine.reject candidate reason, { scan with admittedAny := true }, false⟩
  | answer {engine : ContinuousEngine η} {scan : Scan} {candidate : EngineRequest} {cached : Text}
      (possible : engine.impossibleReason candidate = none)
      (found : (engine.lookupResult candidate).1 = some cached) :
      Step ⟨engine, scan.defer candidate, false⟩
        ⟨(engine.lookupResult candidate).2.answerCached candidate cached,
          { scan with admittedAny := true }, false⟩
  | miss {engine : ContinuousEngine η} {scan : Scan} {candidate : EngineRequest}
      (possible : engine.impossibleReason candidate = none)
      (missing : (engine.lookupResult candidate).1 = none) :
      Step ⟨engine, scan.defer candidate, false⟩
        ⟨(engine.lookupResult candidate).2, scan.defer candidate, false⟩
  | touch {engine : ContinuousEngine η} {scan : Scan} {candidate : EngineRequest} :
      Step ⟨engine, scan.defer candidate, false⟩
        ⟨(engine.matchPrefix candidate).2, scan.defer candidate, false⟩
  | evict {engine : ContinuousEngine η} {scan : Scan} {preparing : Bool}
      (evicted : engine.evictOldest.1 = true) :
      Step ⟨engine, scan, preparing⟩ ⟨engine.evictOldest.2, scan, preparing⟩
  | admission {engine : ContinuousEngine η} {scan : Scan} {candidate : EngineRequest}
      {matched : Option (List BlockId)}
      (possible : engine.impossibleReason candidate = none)
      (room : engine.active.length < engine.config.maxBatchSequences)
      (forgiven : engine.active = [] ∨ candidate.requestId ∉ engine.preemptedRequests)
      (budget : engine.active.length ≤ engine.config.maxBatchTokens - scan.prefillBudget ∧
        candidate.promptTokens ≤
          engine.config.maxBatchTokens - scan.prefillBudget - engine.active.length)
      (longest : matched.getD [] = RadixPrefixCache.longest (engine.candidateHashes candidate)
        (engine.prefixCache.forestOf (prefixNamespace candidate)))
      (allocated : (engine.kvCache.allocate candidate.requestId (engine.promptBlocks candidate)
        (matched.getD [])).1 = .allocated) :
      Step ⟨engine, scan.defer candidate, false⟩
        ⟨{ engine with
            kvCache := (engine.kvCache.allocate candidate.requestId
              (engine.promptBlocks candidate) (matched.getD [])).2 }.admitCandidate candidate
                matched,
          { scan with
            prefillBudget := scan.prefillBudget + candidate.promptTokens
            prefillSequences := scan.prefillSequences + 1
            admittedAny := true }, false⟩
  | requeue (engine : ContinuousEngine η) (scan : Scan) :
      Step ⟨engine, scan, false⟩
        ⟨engine.requeue scan.deferred, { scan with deferred := [] }, false⟩
  | complete {engine : ContinuousEngine η} {scan : Scan} {kept later : List ActiveRequest}
      {active : ActiveRequest} (split : engine.active = kept ++ active :: later)
      (finished : active.request.maxOutputTokens ≤ active.generatedTokens) :
      Step ⟨engine, scan, false⟩
        ⟨{ engine.finish active with active := kept ++ later }, scan, false⟩
  | prepare {engine : ContinuousEngine η} {scan : Scan} (nothing : scan.deferred = [])
      (unfinished : ∀ active ∈ engine.active,
        active.generatedTokens < active.request.maxOutputTokens) :
      Step ⟨engine, scan, false⟩ ⟨engine, scan, true⟩
  | grow {engine : ContinuousEngine η} {scan : Scan} {active : ActiveRequest}
      (member : active ∈ engine.active)
      (short : engine.currentBlocks active < engine.neededBlocks active)
      (appended : (engine.kvCache.appendBlocks active.request.requestId
        (engine.neededBlocks active - engine.currentBlocks active)).1 = .allocated) :
      Step ⟨engine, scan, true⟩
        ⟨{ engine with
            kvCache := (engine.kvCache.appendBlocks active.request.requestId
              (engine.neededBlocks active - engine.currentBlocks active)).2 }, scan, true⟩
  | preempt {engine : ContinuousEngine η} {scan : Scan} {active : ActiveRequest}
      (member : active ∈ engine.active)
      (short : engine.currentBlocks active < engine.neededBlocks active)
      (scarce : engine.kvCache.freeList.length <
        engine.neededBlocks active - engine.currentBlocks active)
      (unpinned : engine.prefixCache.nodes = 0) :
      Step ⟨engine, scan, true⟩ ⟨engine.preempt engine.selectVictim, scan, true⟩
  | decode {engine : ContinuousEngine η} {scan : Scan} (inhabited : engine.active ≠ [])
      (prepared : ∀ active ∈ engine.active,
        engine.neededBlocks active ≤ engine.currentBlocks active) :
      Step ⟨engine, scan, true⟩ ⟨engine.decodeBatch, scan, false⟩
  | close {engine : ContinuousEngine η} {scan : Scan} (nothing : scan.deferred = []) :
      Step ⟨engine, scan, false⟩ (rest engine)

/-- Finitely many steps. -/
abbrev Steps : Moment η → Moment η → Prop :=
  Relation.ReflTransGen Step

end Moment
end InferSched.Engine
