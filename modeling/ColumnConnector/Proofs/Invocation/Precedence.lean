import ColumnConnector.Invocation.Work
import ColumnConnector.Proofs.Connector.Headers
import ColumnConnector.Proofs.Value.Texts

/-!
# What is in effect for a message

The operation, the bound of a scan and the strategy each come from a header, or else from the
configuration, or else are fixed.  `Endpoint.operationFor`, `Endpoint.boundFor` and
`Endpoint.strategyFor` say so of the message as it came and of the configured values themselves.

The endpoint goes another way: it writes its values into the missing headers and reads all of them
back as texts.  This comes to the same (`Endpoint.fillHeaders_precedence`), because a header that is
there is left alone and a value that was written is read as itself.
-/

namespace ColumnConnector

namespace Endpoint

/-! ### By precedence -/

/-- The operation that the header names, or else the configured one, or else a put. -/
def operationFor (e : Endpoint) (m : Message) : Except ConnectorError Operation :=
  match m.headerText Header.operation with
  | some text => (Operation.read text).mapError .configuration
  | none => .ok (e.config.operation.getD .put)

/-- The bound in the header, or else the configured one, which is none if it is zero. -/
def boundFor (e : Endpoint) (m : Message) : Except ConnectorError Nat :=
  match m.headerText Header.maxScanResults with
  | some text =>
    match Readable.readTrimmed UInt64 text with
    | .ok n => .ok n.toNat
    | .error reason => .error (.configuration (.invalidValue Header.maxScanResults reason))
  | none =>
    if e.config.maxResults = 0 then .error (.missingField "HBase max scan results")
    else .ok e.config.maxResults.toNat

/-- The strategy registered under the class name in the header or else the configured one; if there
is neither, the one built in under the name in the header or else the configured one; if there is
neither, the header strategy. -/
def strategyFor (e : Endpoint) (m : Message) : Except ConnectorError Strategy :=
  match (m.headerText Header.strategyClass).or e.config.strategyClass with
  | some className =>
    match e.registry.registered.get? className with
    | some s => .ok s
    | none => .error (.configuration (.unknownStrategyClass className))
  | none =>
    match (m.headerText Header.strategy).or e.config.strategyName with
    | some name => (Registry.builtIn <$> StrategyName.read name).mapError .configuration
    | none => .ok HeaderMapping.strategy

/-! ### By headers that were filled in -/

variable (e : Endpoint) (m : Message)

theorem headerText_fillHeaders (name : String) :
    (e.fillHeaders m).headerText name =
      (m.headerText name).or ((e.default? name).map Json.text) := by
  rw [Message.headerText, header_fillHeaders_eq, Option.map_or]
  rfl

end Endpoint

/-- The name under which an operation is written names it. -/
theorem Operation.read_name (op : Operation) : read op.name = .ok op := by
  cases op <;> decide +kernel

namespace Readable

theorem readTrimmed_eq_ok {α : Type} [Readable α] {s : String} {a : α}
    (h : (read (Text.trim s) : Except (Fault α) α) = .ok a) : readTrimmed α s = .ok a := by
  rw [readTrimmed, h]

/-- The text of a count that is written as a JSON number is read as the count. -/
theorem readTrimmed_count (n : UInt64) : readTrimmed UInt64 (Json.int n.toNat).text = .ok n := by
  have htext : (Json.int n.toNat).text = Decimal.ofInt n.toNat := String.ofList_toList
  apply readTrimmed_eq_ok
  rw [htext, Decimal.trim_ofInt]
  exact Integer.readCount_ofInt n

end Readable

namespace Endpoint

variable (e : Endpoint) (m : Message)

/-- What the endpoint fills in as the operation is read as the operation that it stands for. -/
theorem read_default_operation {j : Json} (h : e.default? Header.operation = some j) :
    Operation.read j.text = .ok (e.config.operation.getD .put) := by
  rw [default?_operation] at h
  cases h
  exact Operation.read_name _

/-- What the endpoint fills in as the bound is read as the configured one. -/
theorem read_default_bound {j : Json} (h : e.default? Header.maxScanResults = some j) :
    Readable.readTrimmed UInt64 j.text = .ok e.config.maxResults := by
  rw [default?_maxScanResults] at h
  split at h <;> cases h
  exact Readable.readTrimmed_count _

theorem operationOf_fillHeaders : operationOf (e.fillHeaders m) = e.operationFor m := by
  unfold operationOf operationFor
  rw [headerText_fillHeaders]
  cases m.headerText Header.operation with
  | some text =>
    rw [Option.some_or]
    dsimp only
    cases Operation.read text <;> rfl
  | none =>
    rw [Option.none_or, default?_operation, Option.map_some]
    dsimp only
    rw [e.read_default_operation e.default?_operation]

theorem scanBound_fillHeaders : Work.scanBound (e.fillHeaders m) = e.boundFor m := by
  unfold Work.scanBound Message.headerAs boundFor
  rw [headerText_fillHeaders]
  cases m.headerText Header.maxScanResults with
  | some text =>
    rw [Option.some_or, Option.map_some]
    dsimp only
    cases Readable.readTrimmed UInt64 text <;> rfl
  | none =>
    rw [Option.none_or, default?_maxScanResults]
    by_cases hzero : e.config.maxResults = 0
    · rw [if_pos hzero]
      exact (if_pos hzero).symm
    · rw [if_neg hzero, Option.map_some, Option.map_some, Readable.readTrimmed_count]
      exact (if_neg hzero).symm

theorem choose_fillHeaders : e.registry.choose (e.fillHeaders m) = e.strategyFor m := by
  have htext : ∀ configured : Option String,
      (configured.map Json.str).map Json.text = configured := by
    intro configured
    cases configured <;> rfl
  unfold Registry.choose strategyFor
  rw [headerText_fillHeaders, headerText_fillHeaders, default?_strategyClass, default?_strategy,
    htext, htext]
  cases (m.headerText Header.strategyClass).or e.config.strategyClass with
  | some className => rfl
  | none =>
    cases (m.headerText Header.strategy).or e.config.strategyName with
    | none => rfl
    | some name =>
      dsimp only
      cases StrategyName.read name <;> rfl

/-- Filling in headers changes only missing ones of the four that have defaults, always leaves an
operation behind, and is done after one time.  A message is then carried out with the operation, the
bound and the strategy that go before all others, and what the endpoint wrote as an operation or a
bound is read as that.

A header that cannot be read is a configuration error; no default takes its place. -/
theorem fillHeaders_precedence :
    -- filling in
    (∀ name, m.hasHeader name = true →
      (e.fillHeaders m).headers.get? name = m.headers.get? name) ∧
    (∀ name, name ∉ Header.defaulted →
      (e.fillHeaders m).headers.get? name = m.headers.get? name) ∧
    (e.fillHeaders m).body = m.body ∧
    (e.fillHeaders m).hasHeader Header.operation = true ∧
    e.fillHeaders (e.fillHeaders m) = e.fillHeaders m ∧
    -- what is in effect
    e.plan (e.fillHeaders m) = (do
      let operation ← e.operationFor m
      let strategy ← e.strategyFor m
      let batch ← e.batchOf strategy (e.fillHeaders m)
      return { operation, strategy, batch }) ∧
    (∀ (σ : Type) [Connection σ] (batch : RowBatch),
      (Work.scan e.filters (e.fillHeaders m) batch : Work σ Outcome) = (do
        let bound ← Work.ofExcept (e.boundFor m)
        .scanned <$> Work.scanAll e.filters (m.headerText Header.startRow) bound batch)) ∧
    -- defaults
    (∀ j, e.default? Header.operation = some j →
      Operation.read j.text = .ok (e.config.operation.getD .put)) ∧
    ∀ j, e.default? Header.maxScanResults = some j →
      Readable.readTrimmed UInt64 j.text = .ok e.config.maxResults := by
  refine ⟨?_, ?_, e.body_fillHeaders m, ?_, e.fillHeaders_fillHeaders m, ?_, ?_,
    fun j hj => e.read_default_operation hj, fun j hj => e.read_default_bound hj⟩
  · intro name hheader
    rw [get?_fillHeaders, if_pos hheader]
  · intro name hname
    rw [get?_fillHeaders, default?_eq_none hname, Option.none_or, ite_self]
  · rw [Message.hasHeader, header_fillHeaders_eq, Option.isSome_or, default?_operation,
      Option.isSome_some, Bool.or_true]
  · rw [plan, operationOf_fillHeaders, choose_fillHeaders]
  · intro σ _ batch
    have hstart : (e.fillHeaders m).headerText Header.startRow = m.headerText Header.startRow := by
      rw [headerText_fillHeaders, default?_eq_none (by decide), Option.map_none, Option.or_none]
    rw [Work.scan, scanBound_fillHeaders, hstart]

/-- A class name that the endpoint fills in goes before a strategy name in the message, and a null
operation is replaced by the one of the endpoint. -/
theorem fillHeaders_precedence_class_name :
    let e : Endpoint := {
      config := { table := "t", operation := some .scan, strategyClass := some "c" }
      registry := Registry.register {} "c" BodyMapping.strategy }
    let m : Message := {
      headers := .ofList [(Header.operation, .null), (Header.strategy, .str "header")]
      body := some (RowBatch.toJson []) }
    e.plan (e.fillHeaders m) = .ok ⟨.scan, BodyMapping.strategy, []⟩ := by
  intro e m
  obtain ⟨-, -, -, -, -, hplan, -⟩ := e.fillHeaders_precedence m
  rw [hplan]
  rfl

end Endpoint

end ColumnConnector
