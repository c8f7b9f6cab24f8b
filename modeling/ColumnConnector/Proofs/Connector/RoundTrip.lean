import ColumnConnector.Proofs.Connector.Writes
import ColumnConnector.Proofs.Row.ReadBack

/-!
# Writing a batch and reading it back

A batch of typed rows with different keys is put, and then a get of the same batch is processed.
The put has made every cell of the batch the newest version of its column, each row under a
timestamp of its own; it has also returned a handle to the pool, so that the get need not wait.
The get then finds each row as it was written (`Connector.process_get_after_put`).
-/

namespace ColumnConnector

/-! ### Batches -/

/-- The puts of a typed batch are for different rows, and the cells of each for different
columns. -/
theorem RowBatch.Typed.puts {batch : RowBatch} {puts : List Put} (ht : batch.Typed)
    (hw : List.Forall₂ Row.Writes batch puts) :
    (puts.Pairwise fun p q => p.row ≠ q.row) ∧
      ∀ p ∈ puts, p.cells.Pairwise fun c d => c.1 ≠ d.1 := by
  constructor
  · refine pairwise_of_forall₂ hw ht.keys fun r s p q hp hq hrs heq => ?_
    have hkey := hp.key
    rw [heq] at hkey
    exact hrs q.row hkey hq.key
  · intro p hp
    obtain ⟨r, hr, hwrites⟩ := exists_mem_of_forall₂ hw.flip hp
    refine pairwise_of_forall₂ hwrites.cells (ht.rows r hr).columns ?_
    intro c d written written' hc hd hcd
    exact hc.column_ne hd hcd

/-- A typed row can be written, under a key that is not empty. -/
theorem Row.Typed.exists_writes {r : Row} (h : r.Typed) : ∃ p : Put, r.Writes p ∧ p.row ≠ [] := by
  obtain ⟨v, hid, hkey⟩ := h.key
  have hwrites : ∀ c ∈ r.cells, ∃ written, c.Writes written := by
    intro c hc
    obtain ⟨f, q, hf, hq⟩ := h.named c hc
    obtain ⟨w, hw⟩ := h.values c hc
    exact ⟨(⟨Utf8.encode f, Utf8.encode q⟩, w.encode), ⟨f, q, hf, hq, rfl⟩, hw.stores.1⟩
  obtain ⟨cells, hcells⟩ := exists_forall₂ hwrites
  exact ⟨⟨v.encode, cells⟩, ⟨⟨v, hid, rfl⟩, hcells, h.nonempty⟩, hkey⟩

/-- Puts for different rows and columns are the newest versions once they are written. -/
theorem Store.Gains.newestIn {s s' : Store} {table : String} {puts : List Put}
    (hg : s.Gains table puts s') (hlimit : 1 ≤ s.maxVersions)
    (hrows : puts.Pairwise fun p q => p.row ≠ q.row)
    (hcells : ∀ p ∈ puts, p.cells.Pairwise fun c d => c.1 ≠ d.1) {e : Put × Int64}
    (he : e ∈ puts.zip (s.clock.stamps puts.length)) : e.1.NewestIn s' table e.2 := by
  intro cell hcell
  have hstamped : (puts.zip (s.clock.stamps puts.length)).Pairwise
      fun e e' => e.1.row ≠ e'.1.row := by
    have hfst : (puts.zip (s.clock.stamps puts.length)).map Prod.fst = puts :=
      List.map_fst_zip (Nat.le_of_eq (Clock.length_stamps s.clock puts.length).symm)
    rw [← hfst, List.pairwise_map] at hrows
    exact hrows
  have hnewest := View.putAll_newest s.maxVersions (s.versions table) hstamped he
    (hcells e.1 (List.of_mem_zip he).1) hcell
  obtain ⟨limit, hsucc⟩ : ∃ limit, s.maxVersions = limit + 1 := ⟨s.maxVersions - 1, by omega⟩
  refine ⟨(s.versions table e.1.row cell.1).take limit, ?_⟩
  rw [hg.versions, hnewest, hsucc, List.take_succ_cons]

/-- The rows of a typed batch are all found, if their puts are what the store holds newest. -/
theorem RowBatch.Typed.found {batch : RowBatch} {puts : List Put} (ht : batch.Typed)
    (hw : List.Forall₂ Row.Writes batch puts) {s : Store} {h : Handle} {stamps : List Int64}
    (hlen : stamps.length = batch.length)
    (hnewest : ∀ e ∈ puts.zip stamps, e.1.NewestIn s h.table e.2) :
    ∃ rows, batch.mapM (Row.found s h) = .ok rows ∧
      List.Forall₂ (fun e found => e.1.ReadBack e.2 found) (batch.zip stamps) rows := by
  have hrow : ∀ e ∈ batch.zip stamps, ∃ found,
      e.1.found s h = .ok found ∧ e.1.ReadBack e.2 found := by
    intro e he
    obtain ⟨e', he', hwrites, htime⟩ := exists_mem_of_forall₂ (forall₂_zip_right hw stamps) he
    have hnew := hnewest e' he'
    rw [htime] at hnew
    exact Row.found_readBack (ht.rows e.1 (List.of_mem_zip he).1) hwrites hnew
  obtain ⟨rows, hboth⟩ := exists_forall₂ hrow
  refine ⟨rows, mapM_eq_ok_iff.2 ?_, hboth.imp fun _ _ hb => hb.2⟩
  have hfst : (batch.zip stamps).map Prod.fst = batch :=
    List.map_fst_zip (Nat.le_of_eq hlen.symm)
  rw [← hfst, List.forall₂_map_left_iff]
  exact hboth.imp fun _ _ hb => hb.1

/-! ### Exchanges -/

namespace Connector

variable {π : Type} [Pooling π]

/-- After a success the next exchange finds a handle in the pool, on the same table. -/
theorem Sound.granted_after_success {k k' : Connector Store π} {x x' : Exchange} (hk : k.Sound)
    (h : k.process x = (some (.ok ()), x', k')) :
    ∃ handle pool, Pooling.checkout k'.pool k'.connection = (.granted handle, pool, k'.connection) ∧
      handle.table = k.endpoint.config.table ∧ k'.endpoint = k.endpoint := by
  have hprocessed := processed_of_process_eq h
  have hsound := (hk.processed hprocessed).pool
  cases hprocessed with
  | @done _ _ _ _ s hcheckout =>
    obtain ⟨handle, pool, hagain⟩ :=
      hk.pool.granted_again s (Pooling.checks_of_checkout_eq hcheckout)
    exact ⟨handle, pool, hagain,
      hsound.table_of_granted (Pooling.checks_of_checkout_eq hagain), rfl⟩

/-- With a handle, a typed batch can be put. -/
theorem process_put_typed {k : Connector Store π} {x : Exchange} {p : Plan} {handle : Handle}
    {pool : π}
    (hcheckout : Pooling.checkout k.pool k.connection = (.granted handle, pool, k.connection))
    (hplan : k.endpoint.plan (k.endpoint.fillHeaders x.input) = .ok p) (hop : p.operation = .put)
    (htyped : p.batch.Typed) : (k.process x).1 = some (.ok ()) := by
  obtain ⟨puts, hputs⟩ := exists_forall₂ fun r hr => (htyped.rows r hr).exists_writes
  refine (process_put_ok_iff hcheckout hplan hop).2 ⟨puts, ?_, ?_⟩
  · exact mapM_eq_ok_iff.2 (hputs.imp fun _ _ h => Row.toPut_eq_ok_iff.2 h.1)
  · intro q hq
    obtain ⟨r, -, -, hkey⟩ := exists_mem_of_forall₂ hputs.flip hq
    exact hkey

/-- After a typed batch was put there is a handle, and through it each row of the batch is found as
it was written. -/
theorem Sound.found_after_put {k k₁ : Connector Store π} {x x₁ : Exchange} {p : Plan}
    (hk : k.Sound) (hp : k.endpoint.plan (k.endpoint.fillHeaders x.input) = .ok p)
    (hput : p.operation = .put) (htyped : p.batch.Typed) (hx : k.process x = (some (.ok ()), x₁, k₁)) :
    ∃ handle pool rows,
      Pooling.checkout k₁.pool k₁.connection = (.granted handle, pool, k₁.connection) ∧
      k₁.endpoint = k.endpoint ∧ p.batch.mapM (Row.found k₁.connection handle) = .ok rows ∧
      List.Forall₂ (fun e found => e.1.ReadBack e.2 found)
        (p.batch.zip (k.connection.clock.stamps p.batch.length)) rows := by
  -- What the put has left in the store.
  obtain ⟨puts, hwrites, hgains⟩ := hk.gains_of_put hp hput hx
  obtain ⟨hrows, hcells⟩ := htyped.puts hwrites
  have hlength : puts.length = p.batch.length := hwrites.length_eq.symm
  -- The handle of the next exchange, and what can be found through it.
  obtain ⟨handle, pool, hcheckout, htable, hendpoint⟩ := hk.granted_after_success hx
  obtain ⟨rows, hfound, hread⟩ := htyped.found (s := k₁.connection) (h := handle) hwrites
    (Clock.length_stamps k.connection.clock p.batch.length) (by
      intro e he
      rw [htable]
      rw [← hlength] at he
      exact hgains.newestIn hk.store.one_le_maxVersions hrows hcells he)
  exact ⟨handle, pool, rows, hcheckout, hendpoint, hfound, hread⟩

/-- A typed batch is put by a connector in use.  The get of the same batch that is processed next
succeeds and delivers one row for each row of the batch, in order, as it was written: with the same
identifier and row type, and every value as one of its declared type, under the timestamp of the
put of its row.  It changes nothing in the store. -/
theorem process_get_after_put {k k₁ : Connector Store π} {x x₁ y : Exchange} {p q : Plan}
    (hk : k.Reachable)
    (hp : k.endpoint.plan (k.endpoint.fillHeaders x.input) = .ok p) (hput : p.operation = .put)
    (htyped : p.batch.Typed) (hx : k.process x = (some (.ok ()), x₁, k₁))
    (hq : k.endpoint.plan (k.endpoint.fillHeaders y.input) = .ok q) (hget : q.operation = .get)
    (hbatch : q.batch = p.batch) (hwrites : q.strategy.NeverRefuses) :
    ∃ rows y₁ k₂, k₁.process y = (some (.ok ()), y₁, k₂) ∧ k₂.connection = k₁.connection ∧
      List.Forall₂ (fun e found => e.1.ReadBack e.2 found)
        (p.batch.zip (k.connection.clock.stamps p.batch.length)) rows ∧
      y₁.output =
        if rows = [] then y.output
        else some (q.strategy.writeGet rows
          (y.outputOrNew.overlayHeaders (k.endpoint.fillHeaders y.input).headers)) := by
  obtain ⟨handle, pool, rows, hcheckout, hendpoint, hfound, hread⟩ :=
    hk.sound.found_after_put hp hput htyped hx
  rw [← hbatch] at hfound
  rw [← hendpoint] at hq ⊢
  have hprocess := process_eq_of_processed
    (.done hcheckout hq (.fetched hget hfound) (Outcome.refusal?_eq_none hwrites _ _))
  refine ⟨rows, _, _, hprocess, rfl, hread, ?_⟩
  cases rows with
  | nil => rfl
  | cons r rest => rfl

/-- A text in a cell of whole numbers is read back as a number. -/
theorem process_get_after_put_int32 :
    let k : Connector Store :=
      .start { config := { table := "t", strategyName := some "body" } }
        (Store.createTable (.keeping 3) "t")
    let cell : Cell := { family := some "f", qualifier := some "q", valueType := some .int32 }
    let r : Row := { id := some (.utf8 "r"), cells := [{ cell with value := some (.utf8 "5") }] }
    let x : Exchange := { input := { body := some (RowBatch.toJson [r]) } }
    let y : Exchange :=
      { x with input := x.input.setHeader Header.operation (.str "CamelHBaseGet") }
    ∃ (found : Row) (out : Message) (y₁ : Exchange) (k₂ : Connector Store),
      (k.process x).2.2.process y = (some (.ok ()), y₁, k₂) ∧
      y₁.output = some out ∧ out.body = some (RowBatch.toJson [found]) ∧
      found.timestamp = some 1 ∧ found.cells.map Cell.value = [some (.int32 5)] := by
  intro k cell r x y
  have hreachable : k.Reachable := .start _ (.change (.keeping 3) (.createTable "t"))
  have hput : k.endpoint.plan (k.endpoint.fillHeaders x.input) =
      .ok ⟨.put, BodyMapping.strategy, [r]⟩ := by
    subst k cell r x
    rfl
  have hget : k.endpoint.plan (k.endpoint.fillHeaders y.input) =
      .ok ⟨.get, BodyMapping.strategy, [r]⟩ := by
    subst k cell r x y
    rfl
  have hok : (k.process x).1 = some (.ok ()) := by
    subst k cell r x
    rfl
  have htyped : RowBatch.Typed [r] := by
    refine ⟨fun r' hr => ?_, List.pairwise_singleton _ _⟩
    rw [List.mem_singleton.1 hr]
    refine ⟨⟨.utf8 "r", rfl, by decide⟩, List.cons_ne_nil _ _, List.pairwise_singleton _ _, ?_, ?_⟩
    · intro c hc
      rw [List.mem_singleton.1 hc]
      exact ⟨"f", "q", rfl, rfl⟩
    · intro c hc
      rw [List.mem_singleton.1 hc]
      exact ⟨.int32 5, .declared rfl rfl rfl⟩
  obtain ⟨rows, y₁, k₂, hprocess, -, hread, houtput⟩ :=
    process_get_after_put hreachable hput rfl htyped (Prod.ext hok rfl : k.process x = (_, _, _))
      hget rfl rfl (Registry.builtIn_neverRefuses .body)
  obtain ⟨found, rest, hfound, hnone, rfl⟩ := List.forall₂_cons_left_iff.1 hread
  cases List.forall₂_nil_left_iff.1 hnone
  obtain ⟨d, rest, hd, hnone, hcells⟩ := List.forall₂_cons_left_iff.1 hfound.cells
  cases List.forall₂_nil_left_iff.1 hnone
  obtain ⟨w, hw, hvalue⟩ := hd.value
  have hfive : w = .int32 5 := hw.unique (.declared rfl rfl rfl)
  refine ⟨found, _, y₁, k₂, hprocess, houtput, rfl, hfound.timestamp, ?_⟩
  rw [hcells, List.map_singleton, hvalue, hfive]

end Connector

end ColumnConnector
