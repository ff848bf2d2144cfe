import InferSched.Engine.Conservation

/-! # The block a decoded token falls into

A sequence about to decode its next token writes into one of its blocks. Blocks
past the hashed part of the prompt belong to the sequence alone, so the token has
a block of its own whenever every hashed block is filled by the prompt. The
engine also caches the last prompt block when it has a hash and is only partly
filled, and then the token falls into a block that the prefix cache pins.
-/

namespace InferSched.Engine

open Library

/-- Every prompt block with a hash is full, or the request decodes nothing. -/
def EngineRequest.BlockAligned (blockSize : ℕ) (request : EngineRequest) : Prop :=
  request.maxOutputTokens = 0 ∨
    min request.promptBlockHashes.length (blocksForTokens request.promptTokens blockSize) *
      blockSize ≤ request.promptTokens

namespace ContinuousEngine

variable {η : Type}

/-- The block of the next token of a sequence has that sequence as its only
reference. -/
def DecodesAlone (engine : ContinuousEngine η) (active : ActiveRequest) : Prop :=
  (engine.kvCache.blocksFor active.request.requestId)[(active.request.promptTokens +
    active.generatedTokens) / engine.config.kvBlockSizeTokens]?.map engine.kvCache.refCount = some 1

instance (engine : ContinuousEngine η) (active : ActiveRequest) :
    Decidable (engine.DecodesAlone active) :=
  inferInstanceAs (Decidable (_ = _))

/-- A prepared sequence whose hashed blocks are full decodes into its own block. -/
theorem Invariant.decodesAlone {engine : ContinuousEngine η} (invariant : engine.Invariant true)
    {active : ActiveRequest} (member : active ∈ engine.active)
    (prepared : engine.neededBlocks active ≤ engine.currentBlocks active)
    (aligned : active.request.BlockAligned engine.config.kvBlockSizeTokens) :
    engine.DecodesAlone active := by
  have unfinished : active.generatedTokens + 1 ≤ active.request.maxOutputTokens :=
    invariant.unfinished active member
  have full : min active.request.promptBlockHashes.length (engine.promptBlocks active.request) *
      engine.config.kvBlockSizeTokens ≤ active.request.promptTokens := by
    rcases aligned with nothing | full
    · omega
    · exact full
  have past : (engine.candidateHashes active.request).length ≤
      (active.request.promptTokens + active.generatedTokens) /
        engine.config.kvBlockSizeTokens := by
    rw [Nat.le_div_iff_mul_le invariant.positive, candidateHashes, List.length_take]
    refine le_trans ?_ (full.trans (Nat.le_add_right _ _))
    exact Nat.mul_le_mul_right _ (Nat.min_le_left _ _)
  have inside : (active.request.promptTokens + active.generatedTokens) /
      engine.config.kvBlockSizeTokens <
        (engine.kvCache.blocksFor active.request.requestId).length :=
    (div_lt_blocksForTokens invariant.positive _).trans_le prepared
  generalize isPosition : (active.request.promptTokens + active.generatedTokens) /
    engine.config.kvBlockSizeTokens = position at past inside
  have tail : (engine.kvCache.blocksFor active.request.requestId)[position] ∈
      (engine.kvCache.blocksFor active.request.requestId).drop
        (engine.candidateHashes active.request).length := by
    rw [List.mem_drop_iff_getElem]
    refine ⟨position - (engine.candidateHashes active.request).length, by omega, ?_⟩
    simp only [Nat.add_sub_of_le past]
  have known : active.request.requestId ∈ engine.kvCache.sequenceBlocks :=
    (invariant.sequences _).mpr (List.mem_map_of_mem member)
  have one := (invariant.owned active member _ tail).holders_eq_one known
    (List.getElem_mem inside)
  unfold DecodesAlone
  rw [isPosition, List.getElem?_eq_getElem inside, Option.map_some,
    invariant.linked.invariant.refCount_eq _ (by rw [one]; decide), one]

variable [RequestQueue η]

/-- The engine when the next iteration is about to decode: after
`PrepareDecodeBlocks`. With an empty batch it decodes nothing. -/
def beforeDecode (engine : ContinuousEngine η) : ContinuousEngine η :=
  engine.admitAndComplete.2.prepareDecodeBlocks.2

/-- In every run whose submitted requests have only full blocks hashed, whatever
the order of the calls, every sequence about to decode has the block of its next
token for itself. -/
theorem decode_into_own_block {draws : JitterDraws} {config : EngineConfig}
    {start : ContinuousEngine η} (accepted : new draws config = .ok start) (calls : List Call)
    (aligned : ∀ request, Call.submit request ∈ calls →
      request.BlockAligned config.kvBlockSizeTokens) :
    ∀ active ∈ (object.run calls start).beforeDecode.active,
      (object.run calls start).beforeDecode.DecodesAlone active := by
  obtain ⟨invariant, isConfig, _⟩ := run_invariant accepted calls
  have unanswered := run_unanswered (EngineRequest.BlockAligned config.kvBlockSizeTokens)
    accepted calls aligned
  obtain ⟨scan, nothing, _, started, unfinished⟩ := admitAndComplete_steps invariant
  have valid := started.invariant invariant
  intro active member
  by_cases empty : (object.run calls start).admitAndComplete.2.active = []
  · -- An empty batch is prepared as it is.
    unfold beforeDecode prepareDecodeBlocks preparePasses at member
    rw [empty, preparePass, if_pos rfl, empty] at member
    exact absurd member List.not_mem_nil
  · obtain ⟨steps, _, prepared⟩ := prepareDecodeBlocks_steps valid empty nothing unfinished
    have all : Moment.Steps _ _ := started.trans steps
    have isConfig' := (all.fixed invariant).1.trans isConfig
    refine (all.invariant invariant).decodesAlone member (prepared active member) ?_
    rw [isConfig']
    exact unanswered active.request.ticket (Multiset.mem_of_le (all.unanswered_le invariant)
      (Moment.ticket_mem_unanswered member))

/-- A prompt of one full block with its hash decodes into its second block. -/
theorem decode_into_own_block_full :
    let request : EngineRequest :=
      { requestId := ['a'], promptTokens := 16, maxOutputTokens := 2,
        promptBlockHashes := [['h']] }
    ∃ start : ContinuousEngine (SelectionQueue EngineRequest),
      new (fun _ _ _ => 0) { kvBlocks := 4 } = .ok start ∧
      (object.run [.submit request] start).beforeDecode.activeIds = [['a']] ∧
      ∀ active ∈ (object.run [.submit request] start).beforeDecode.active,
        (object.run [.submit request] start).beforeDecode.DecodesAlone active := by
  intro request
  have accepted : (new (fun _ _ _ => 0) { kvBlocks := 4 } :
    Except Text (ContinuousEngine (SelectionQueue EngineRequest))) = .ok _ := rfl
  refine ⟨_, accepted, by decide +kernel, decode_into_own_block accepted _ ?_⟩
  intro submitted member
  cases List.mem_singleton.mp member
  right
  decide

/-- One hashed block that the prompt fills only in part: it is pinned in the
prefix cache when the first token is decoded into it. -/
theorem decode_into_pinned_block :
    let request : EngineRequest :=
      { requestId := ['a'], promptTokens := 10, maxOutputTokens := 2,
        promptBlockHashes := [['h']] }
    ∃ start : ContinuousEngine (SelectionQueue EngineRequest),
      new (fun _ _ _ => 0) { kvBlocks := 4 } = .ok start ∧
      ¬∀ active ∈ (object.run [.submit request] start).beforeDecode.active,
        (object.run [.submit request] start).beforeDecode.DecodesAlone active := by
  intro request
  have accepted : (new (fun _ _ _ => 0) { kvBlocks := 4 } :
    Except Text (ContinuousEngine (SelectionQueue EngineRequest))) = .ok _ := rfl
  exact ⟨_, accepted, by decide +kernel⟩

end ContinuousEngine
end InferSched.Engine
