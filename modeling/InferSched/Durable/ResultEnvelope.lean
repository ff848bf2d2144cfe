import InferSched.Durable.Store
import InferSched.Engine.Request
import InferSched.Library.JsonFields

/-! # The result envelope

The text a router stores and publishes for a completed request
(`ResultEnvelope` in `durable_router_main.cpp`), and what the gateway reads from
it with `json.loads`. The router writes the strings between quotes as they are,
so the envelope is read back exactly when none of them has a quote, a backslash
or a control character. The strings are those of a protobuf message and of a
UTF-8 record, so they are given by their characters.
-/

namespace InferSched.Durable

open Library

/-- The fields of `infersched.v1.InferenceRequest` that a router reads. -/
structure InferenceRequest where
  requestId : Text
  traceId : Text
  spanId : Text
deriving DecidableEq, Repr

def resultEnvelope (request : InferenceRequest) (fence : Fence) (output : Text) : Text :=
  "\x7b\"request_id\":\"".toList ++ request.requestId ++
  "\",\"trace_id\":\"".toList ++ request.traceId ++
  "\",\"span_id\":\"".toList ++ request.spanId ++
  "\",\"ownership_epoch\":".toList ++
  decimal fence.ownershipEpoch ++ ",\"attempt_id\":".toList ++
  decimal fence.attemptId ++ ",\"output\":\"".toList ++ output ++ "\"\x7d".toList

/-- The gateway decodes a text to the values of this request, fence and output. -/
def DecodesTo (text : Text) (request : InferenceRequest) (fence : Fence) (output : Text) : Prop :=
  ∃ result, Json.loads text = some result ∧
    result.get? "request_id".toList = some (.string (Json.codes request.requestId)) ∧
    result.get? "trace_id".toList = some (.string (Json.codes request.traceId)) ∧
    result.get? "span_id".toList = some (.string (Json.codes request.spanId)) ∧
    result.get? "ownership_epoch".toList = some (.integer fence.ownershipEpoch) ∧
    result.get? "attempt_id".toList = some (.integer fence.attemptId) ∧
    result.get? "output".toList = some (.string (Json.codes output))

/-- No character of a string needs an escape. -/
def Unescaped (text : Text) : Prop :=
  ∀ c ∈ text, Json.Plain c

instance (text : Text) : Decidable (Unescaped text) :=
  List.decidableBAll Json.Plain text

namespace ResultEnvelope

variable (request : InferenceRequest) (fence : Fence) (output : Text)

/-- The strings the envelope quotes. -/
def fields : List Text :=
  [request.requestId, request.traceId, request.spanId, output]

/-! ### Reading back strings without escapes -/

/-- The shape of the envelope, whatever its keys. -/
theorem assemble {first second third fourth fifth sixth last k₁ k₂ k₃ k₄ k₅ k₆ : Text}
    (isFirst : first = '{' :: '"' :: (k₁ ++ ['"', ':', '"']))
    (isSecond : second = '"' :: ',' :: '"' :: (k₂ ++ ['"', ':', '"']))
    (isThird : third = '"' :: ',' :: '"' :: (k₃ ++ ['"', ':', '"']))
    (isFourth : fourth = '"' :: ',' :: '"' :: (k₄ ++ ['"', ':']))
    (isFifth : fifth = ',' :: '"' :: (k₅ ++ ['"', ':']))
    (isSixth : sixth = ',' :: '"' :: (k₆ ++ ['"', ':', '"'])) (isLast : last = ['"', '}'])
    (requestId traceId spanId epoch attempt : Text) :
    first ++ requestId ++ second ++ traceId ++ third ++ spanId ++ fourth ++ epoch ++ fifth ++
        attempt ++ sixth ++ output ++ last =
      '{' :: '"' :: (k₁ ++ '"' :: ':' :: '"' :: (requestId ++
        '"' :: ',' :: '"' :: (k₂ ++ '"' :: ':' :: '"' :: (traceId ++
        '"' :: ',' :: '"' :: (k₃ ++ '"' :: ':' :: '"' :: (spanId ++
        '"' :: ',' :: '"' :: (k₄ ++ '"' :: ':' :: (epoch ++
        ',' :: '"' :: (k₅ ++ '"' :: ':' :: (attempt ++
        ',' :: '"' :: (k₆ ++ '"' :: ':' :: '"' :: (output ++ ['"', '}'])))))))))))) := by
  subst isFirst isSecond isThird isFourth isFifth isSixth isLast
  simp only [List.append_assoc, List.cons_append, List.nil_append]

/-- The envelope as the members of an object. -/
theorem envelope_eq : resultEnvelope request fence output =
    '{' :: '"' :: ("request_id".toList ++ '"' :: ':' :: '"' :: (request.requestId ++
      '"' :: ',' :: '"' :: ("trace_id".toList ++ '"' :: ':' :: '"' :: (request.traceId ++
      '"' :: ',' :: '"' :: ("span_id".toList ++ '"' :: ':' :: '"' :: (request.spanId ++
      '"' :: ',' :: '"' :: ("ownership_epoch".toList ++ '"' :: ':' ::
        (Nat.toDigits 10 fence.ownershipEpoch ++
      ',' :: '"' :: ("attempt_id".toList ++ '"' :: ':' :: (Nat.toDigits 10 fence.attemptId ++
      ',' :: '"' :: ("output".toList ++ '"' :: ':' :: '"' :: (output ++ ['"', '}'])))))))))))) := by
  unfold resultEnvelope
  exact assemble output (by decide) (by decide) (by decide) (by decide) (by decide) (by decide)
    (by decide) request.requestId request.traceId request.spanId _ _

/-- The members the gateway reads. -/
def members : List (List ℕ × Json) :=
  [(Json.codes "request_id".toList, .string (Json.codes request.requestId)),
    (Json.codes "trace_id".toList, .string (Json.codes request.traceId)),
    (Json.codes "span_id".toList, .string (Json.codes request.spanId)),
    (Json.codes "ownership_epoch".toList, .integer fence.ownershipEpoch),
    (Json.codes "attempt_id".toList, .integer fence.attemptId),
    (Json.codes "output".toList, .string (Json.codes output))]

theorem members_distinct : ((members request fence output).map Prod.fst).Nodup := by
  change [Json.codes "request_id".toList, Json.codes "trace_id".toList, Json.codes "span_id".toList,
    Json.codes "ownership_epoch".toList, Json.codes "attempt_id".toList,
    Json.codes "output".toList].Nodup
  decide

theorem loads_envelope (plain : ∀ field ∈ fields request output, Unescaped field) :
    Json.loads (resultEnvelope request fence output) =
      some (.object (members request fence output)) := by
  have keys : ∀ key ∈ ["request_id".toList, "trace_id".toList, "span_id".toList,
      "ownership_epoch".toList, "attempt_id".toList, "output".toList], Unescaped key := by
    decide
  simp only [fields, List.forall_mem_cons] at plain keys
  obtain ⟨requestPlain, tracePlain, spanPlain, outputPlain, _⟩ := plain
  obtain ⟨first, second, third, fourth, fifth, sixth, _⟩ := keys
  rw [envelope_eq]
  apply Json.loads_object
  -- The fuel is the length of the text, and every member takes one unit of it.
  obtain ⟨fuel, enough⟩ : ∃ fuel, (resultEnvelope request fence output).length = fuel + 7 := by
    refine Nat.exists_eq_add_of_le' ?_
    rw [envelope_eq]
    simp only [List.length_cons, List.length_append]
    omega
  rw [envelope_eq, List.length_cons, List.length_cons] at enough
  rw [enough, Json.scanMembers_string first _ requestPlain,
    Json.scanMembers_string second _ tracePlain,
    Json.scanMembers_string third _ spanPlain, Json.scanMembers_decimal fourth,
    Json.scanMembers_decimal fifth, Json.scanMembers_string_last sixth _ outputPlain]
  rfl

/-- Strings without special characters are read back as they are. -/
theorem decodesTo_of_unescaped (plain : ∀ field ∈ fields request output, Unescaped field) :
    DecodesTo (resultEnvelope request fence output) request fence output := by
  have distinct := members_distinct request fence output
  refine ⟨_, loads_envelope request fence output plain, Json.get?_of_mem distinct ?_,
    Json.get?_of_mem distinct ?_, Json.get?_of_mem distinct ?_, Json.get?_of_mem distinct ?_,
    Json.get?_of_mem distinct ?_, Json.get?_of_mem distinct ?_⟩
  · exact .head _
  · exact .tail _ (.head _)
  · exact .tail _ (.tail _ (.head _))
  · exact .tail _ (.tail _ (.tail _ (.head _)))
  · exact .tail _ (.tail _ (.tail _ (.tail _ (.head _))))
  · exact .tail _ (.tail _ (.tail _ (.tail _ (.tail _ (.head _)))))

/-! ### Strings that need an escape -/

/-- The fixed parts of the envelope, each before the string it quotes. -/
def segments : List (Text × Text) :=
  [("\x7b\"request_id\":\"".toList, request.requestId),
    ("\",\"trace_id\":\"".toList, request.traceId),
    ("\",\"span_id\":\"".toList, request.spanId),
    ("\",\"ownership_epoch\":".toList ++ (decimal fence.ownershipEpoch ++
      (",\"attempt_id\":".toList ++ (decimal fence.attemptId ++ ",\"output\":\"".toList))), output)]

theorem envelope_fill : resultEnvelope request fence output =
    Json.fill (segments request fence output) "\"\x7d".toList := by
  have assoc : ∀ first second third fourth fifth sixth last epoch attempt : Text,
      first ++ request.requestId ++ second ++ request.traceId ++ third ++ request.spanId ++
        fourth ++ epoch ++ fifth ++ attempt ++ sixth ++ output ++ last =
      Json.fill [(first, request.requestId), (second, request.traceId), (third, request.spanId),
        (fourth ++ (epoch ++ (fifth ++ (attempt ++ sixth))), output)] last := by
    intros
    simp only [Json.fill, List.append_assoc]
  exact assoc _ _ _ _ _ _ _ _ _

theorem decimal_clean (value : ℕ) : '\\' ∉ decimal value := fun member =>
  absurd (Nat.isDigit_of_mem_toDigits (by decide) (by decide) member) (by decide)

theorem envelope_quotes : Json.Quotes (segments request fence output) "\"\x7d".toList := by
  refine ⟨by decide, ⟨"\x7b\"request_id\"".toList, by decide⟩, ⟨_, rfl, Or.inr ⟨'t', _, rfl, ?_⟩⟩,
    by decide, ⟨"\",\"trace_id\"".toList, by decide⟩, ⟨_, rfl, Or.inr ⟨'s', _, rfl, ?_⟩⟩,
    by decide, ⟨"\",\"span_id\"".toList, by decide⟩, ⟨_, rfl, Or.inr ⟨'o', _, rfl, ?_⟩⟩,
    ?_, ⟨"\",\"ownership_epoch\":".toList ++ (decimal fence.ownershipEpoch ++
      (",\"attempt_id\":".toList ++ (decimal fence.attemptId ++ ",\"output\"".toList))), ?_⟩,
    ⟨['}'], by decide, Or.inl rfl⟩, ?_⟩
  · decide
  · decide
  · decide
  · have keys : '\\' ∉ "\",\"ownership_epoch\":".toList ∧ '\\' ∉ ",\"attempt_id\":".toList ∧
        '\\' ∉ ",\"output\":\"".toList := by decide
    simp only [List.mem_append, not_or]
    exact ⟨keys.1, decimal_clean _, keys.2.1, decimal_clean _, keys.2.2⟩
  · have output : ",\"output\":\"".toList = ",\"output\"".toList ++ [':', '"'] := by decide
    rw [output]
    simp only [List.append_assoc]
  · change '\\' ∉ "\"\x7d".toList
    decide

end ResultEnvelope

/-- The gateway reads back what the router put into an envelope exactly when no
string of it has a quote, a backslash or a control character. -/
theorem resultEnvelope_decodes_iff (request : InferenceRequest) (fence : Fence) (output : Text) :
    DecodesTo (resultEnvelope request fence output) request fence output ↔
      Unescaped request.requestId ∧ Unescaped request.traceId ∧ Unescaped request.spanId ∧
        Unescaped output := by
  constructor
  · intro decodes
    obtain ⟨result, decoded, requestId, traceId, spanId, _, _, outputRead⟩ := decodes
    rw [ResultEnvelope.envelope_fill] at decoded
    have plain :=
      Json.plain_of_read (ResultEnvelope.envelope_quotes request fence output) decoded (by
      simp only [ResultEnvelope.segments, List.forall_mem_cons]
      exact ⟨⟨_, requestId⟩, ⟨_, traceId⟩, ⟨_, spanId⟩, ⟨_, outputRead⟩, by simp⟩)
    simp only [ResultEnvelope.segments, List.forall_mem_cons] at plain
    exact ⟨plain.1, plain.2.1, plain.2.2.1, plain.2.2.2.1⟩
  · intro plain
    apply ResultEnvelope.decodesTo_of_unescaped
    simp only [ResultEnvelope.fields, List.forall_mem_cons]
    exact ⟨plain.1, plain.2.1, plain.2.2.1, plain.2.2.2, by simp⟩

/-- A prompt hash with quotes in it redirects a result: the envelope of request
`r1` is read as one of request `r2`. -/
theorem resultEnvelope_redirected :
    let request : InferenceRequest := ⟨"r1".toList, "t1".toList, "s1".toList⟩
    let fence : Fence := ⟨0, 1, 1, "e".toList⟩
    let output := Engine.simulatedOutput
      { requestId := "r1".toList, promptHash := "h\",\"request_id\":\"r2\",\"x\":\"".toList }
    ¬ DecodesTo (resultEnvelope request fence output) request fence output ∧
      ((Json.loads (resultEnvelope request fence output)).bind fun result =>
        result.get? "request_id".toList) = some (.string (Json.codes "r2".toList)) := by
  intro request fence output
  have evaluated : ((Json.loads (resultEnvelope request fence output)).bind fun result =>
      result.get? "request_id".toList).bind Json.string? = some (Json.codes "r2".toList) := by
    decide +kernel
  have read : ((Json.loads (resultEnvelope request fence output)).bind fun result =>
      result.get? "request_id".toList) = some (.string (Json.codes "r2".toList)) := by
    obtain ⟨value, found, named⟩ := Option.bind_eq_some_iff.mp evaluated
    rw [found, Json.string?_eq_some named]
  refine ⟨?_, read⟩
  rintro ⟨result, decoded, requestId, _⟩
  rw [decoded, Option.bind_some, requestId] at read
  injection read with same
  injection same with codes
  exact absurd codes (by decide)

end InferSched.Durable
