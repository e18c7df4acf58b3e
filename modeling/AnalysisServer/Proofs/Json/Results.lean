import AnalysisServer.Proofs.Json.Codecs
import AnalysisServer.Result

namespace AnalysisServer

open Json (Codec lookup_cons_eq_ite lookup_optionalField)

theorem ErrorKind.codec (filler : Json.Filler) : Codec ErrorKind.toJson (Json.word? filler ErrorKind.words) :=
  .word filler fun k ↦ by cases k <;> rfl

theorem ErrorCode.codec (filler : Json.Filler) : Codec ErrorCode.toJson (Json.word? filler ErrorCode.words) :=
  .word filler fun c ↦ by cases c <;> rfl

theorem ParsingDetail.codec : Codec ParsingDetail.toJson ParsingDetail.ofJson? where
  read_write d := by
    simp [toJson, ofJson?, Json.record?, lookup_cons_eq_ite, lookup_optionalField, List.lookup_append,
      Codec.str.required, (ErrorCode.codec .null).required, Codec.uint32.omitted]
  ne_null _ := nofun

theorem ErrorPayload.codec : Codec ErrorPayload.toJson ErrorPayload.ofJson? where
  read_write p := by
    cases p with
    | parsing d =>
      simp [toJson, ofJson?, Json.object?, lookup_cons_eq_ite, ParsingDetail.codec.required]
    | general error kind =>
      -- without a parsing detail the payload is a general one
      have hdetail : Json.required ParsingDetail.ofJson? none = none := rfl
      simp [toJson, ofJson?, Json.object?, lookup_cons_eq_ite, lookup_optionalField, hdetail,
        Codec.str.required, (ErrorKind.codec .null).omitted]
  ne_null p := by cases p <;> nofun

namespace Issue

theorem codec : Codec toJson ofJson? where
  read_write i := by
    simp [toJson, ofJson?, Json.record?, lookup_cons_eq_ite, lookup_optionalField, List.lookup_append,
      Codec.str.required, Codec.uint32.required, Codec.uint32.omitted]
  ne_null _ := nofun

end Issue

namespace Metrics

theorem codec_numbers : Codec numbers numbers? :=
  .list .uint32

theorem codec : Codec toJson ofJson? where
  read_write m := by
    simp [toJson, ofJson?, Json.record?, lookup_cons_eq_ite, lookup_optionalField, List.lookup_append,
      codec_numbers.withDefault, codec_numbers.omitted, Codec.uint32.omitted]
  ne_null _ := nofun

end Metrics

theorem Timings.codec : Codec Timings.toJson Timings.ofJson? where
  read_write t := by
    simp [toJson, ofJson?, Json.record?, lookup_cons_eq_ite, Codec.uint64.required]
  ne_null _ := nofun

namespace FileOutput

theorem codec : Codec toJson ofJson? where
  read_write o := by
    simp [toJson, ofJson?, Json.record?, lookup_cons_eq_ite, lookup_optionalField,
      Issue.codec.list.required, Metrics.codec.required, Timings.codec.required, Codec.str.omitted]
  ne_null _ := nofun

theorem ofJson?_payload (p : ErrorPayload) : ofJson? p.toJson = none := by
  have hissues : Json.required (Json.listOf Issue.ofJson?) none = none := rfl
  cases p <;>
    simp [ErrorPayload.toJson, ofJson?, Json.record?, lookup_cons_eq_ite, lookup_optionalField, hissues]

end FileOutput

theorem ErrorPayload.ofJson?_output (o : FileOutput) : ofJson? o.toJson = none := by
  have hdetail : Json.required ParsingDetail.ofJson? none = none := rfl
  have herror : Json.required Json.str? none = none := rfl
  simp [FileOutput.toJson, ofJson?, Json.object?, lookup_cons_eq_ite, lookup_optionalField, hdetail, herror]

theorem FileResult.ofJson?_toJson (x : FileResult) : ofJson? x.toJson = some x := by
  cases x with
  | analyzed o => rw [ofJson?, toJson, FileOutput.codec.read_write]
  | failed p => rw [ofJson?, toJson, FileOutput.ofJson?_payload, ErrorPayload.codec.read_write, Option.map_some]

/-- Whatever a file came to, and whatever failed, is read back as it was, and an output and a failure are
never taken for each other. -/
theorem FileResult.results_read_back : (∀ x : FileResult, ofJson? x.toJson = some x) ∧
    (∀ p : ErrorPayload, ErrorPayload.ofJson? p.toJson = some p) ∧
    (∀ e : AnalysisError, ErrorPayload.ofJson? e.payload.toJson = some e.payload) ∧
    (∀ p : ErrorPayload, FileOutput.ofJson? p.toJson = none) ∧
    (∀ o : FileOutput, ErrorPayload.ofJson? o.toJson = none) :=
  ⟨ofJson?_toJson, ErrorPayload.codec.read_write, fun e ↦ ErrorPayload.codec.read_write e.payload,
    FileOutput.ofJson?_payload, ErrorPayload.ofJson?_output⟩

end AnalysisServer
