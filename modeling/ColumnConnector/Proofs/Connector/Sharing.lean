import ColumnConnector.Proofs.Connector.Writes
import ColumnConnector.Proofs.Store.Session
import ColumnConnector.Store.Workspace

/-!
# Clients and connectors on one pool

A session may be shared with connectors: between the requests of the clients, exchanges are
processed on the pools of the session.  The same few handles then pass through many hands, and a
handle may come back to its pool with puts in its buffer.

They are of no account.  The buffer of a handle in use holds what was buffered since it was taken,
flushed or emptied last (`Workspace.Keeps.buffers`), and this is what a flush writes.  An exchange
takes a handle and gives it back, whatever comes of it.
-/

namespace ColumnConnector

/-! ### Shared sessions -/

/-- One turn of a shared session. -/
inductive Turn where
  | request (step : Step)
  /-- A connector at the endpoint processes an exchange on the pool under a name. -/
  | exchange (pool : String) (endpoint : Endpoint) (x : Exchange)

/-- What a turn gives back. -/
inductive Reply (π : Type) where
  | answer (a : Answer π)
  | processed (result : Option (Except ConnectorError Unit)) (x : Exchange)

namespace Workspace

variable {π : Type}

/-- The connector at an endpoint that works on the store of the workspace, with one of its pools. -/
def connector (w : Workspace π) (e : Endpoint) (p : π) : Connector Store π where
  endpoint := e
  connection := w.store
  pool := p

/-- The workspace after a connector has worked on the pool under a name. -/
def afterwards (w : Workspace π) (pool : String) (k : Connector Store π) : Workspace π :=
  { w with store := k.connection, pools := w.pools.insert pool k.pool }

variable [Pooling π]

def turn (w : Workspace π) : Turn → Reply π × Workspace π
  | .request s => (.answer (w.step s).1, (w.step s).2)
  | .exchange pool e x =>
    match w.pools.get? pool with
    | none => (.answer (.unknown pool), w)
    | some p =>
      let (result, x, k) := (w.connector e p).process x
      (.processed result x, w.afterwards pool k)

/-- The replies of a shared session and the workspace at its end. -/
def runTurns : Workspace π → List Turn → List (Reply π) × Workspace π
  | w, [] => ([], w)
  | w, t :: rest => ((w.turn t).1 :: ((w.turn t).2.runTurns rest).1, ((w.turn t).2.runTurns rest).2)

end Workspace

/-- The puts buffered under a name after one more turn: a put that was taken adds its own, and a
handle that is new under the name, flushed, emptied or let go has none. -/
def bufferedBy {π : Type} (name : String) (puts : List Put) : Turn × Reply π → List Put
  | (.request (.put n more), .answer .done) => if name = n then puts ++ more else puts
  | (.request (.openTable _ n), .answer (.table _)) => if name = n then [] else puts
  | (.request (.checkout _ n), .answer (.checkout (.granted _) _)) => if name = n then [] else puts
  | (.request (.flush n), _) => if name = n then [] else puts
  | (.request (.discard n), _) => if name = n then [] else puts
  | (.request (.release n), _) => if name = n then [] else puts
  | _ => puts

/-- The puts buffered under a name since its handle was taken, flushed or emptied last. -/
def buffered {π : Type} (name : String) (transcript : List (Turn × Reply π)) : List Put :=
  transcript.foldl (bufferedBy name) []

/-! ### What a turn keeps -/

namespace Workspace

variable {π : Type} [Pooling π]

/-- The buffers are what the requests have left in them, and the pools have room. -/
structure Keeps (w : Workspace π) (puts : String → List Put) : Prop where
  buffers : ∀ name held, w.handles.get? name = some held → held.handle.pending = puts name
  pools : ∀ pool p, w.pools.get? pool = some p → Pooling.Fits p

/-- Nothing is buffered under a name, and under the others what was there. -/
def emptied (puts : String → List Put) (name : String) : String → List Put :=
  fun n => if n = name then [] else puts n

namespace Keeps

variable {w : Workspace π} {puts : String → List Put} (h : w.Keeps puts)
include h

theorem withStore (s : Store) : { w with store := s }.Keeps puts := ⟨h.buffers, h.pools⟩

theorem insertPool {name : String} {p : π} (hp : Pooling.Fits p) {handles}
    {puts' : String → List Put} (hhandles : ∀ n held, handles.get? n = some held → held.handle.pending = puts' n) :
    { w with handles := handles, pools := w.pools.insert name p }.Keeps puts' where
  buffers := hhandles
  pools := by
    intro pool p' hget
    rw [SortedMap.get?_insert_eq] at hget
    split at hget
    · cases hget
      exact hp
    · exact h.pools pool p' hget

theorem drop (name : String) : (w.drop name).Keeps (emptied puts name) := by
  have hhandles : ∀ n held, (w.handles.erase name).get? n = some held →
      held.handle.pending = emptied puts name n := by
    intro n held hget
    rw [SortedMap.get?_erase] at hget
    unfold emptied
    split at hget
    · cases hget
    · next hn =>
      rw [if_neg hn]
      exact h.buffers n held hget
  unfold Workspace.drop
  split
  · next hnone =>
    refine ⟨fun n held hget => ?_, h.pools⟩
    have hn : n ≠ name := by
      rintro rfl
      cases hnone.symm.trans hget
    rw [emptied, if_neg hn]
    exact h.buffers n held hget
  · dsimp only
    split
    · exact ⟨hhandles, h.pools⟩
    · next held _ _ pool p hhome =>
      obtain ⟨home, -, hpool⟩ := Option.bind_eq_some_iff.1 hhome
      obtain ⟨p', hp', he⟩ := Option.map_eq_some_iff.1 hpool
      cases he
      exact h.insertPool ((h.pools _ _ hp').release _) hhandles

theorem hold (name : String) {held : Held} (hempty : held.handle.pending = []) :
    (w.hold name held).Keeps (emptied puts name) where
  buffers := by
    intro n held' hget
    rw [get?_hold] at hget
    unfold emptied
    split at hget
    · next hn =>
      cases hget
      rw [if_pos hn, hempty]
    · next hn =>
      rw [if_neg hn]
      exact h.buffers n held' hget
  pools := (h.drop name).pools

theorem update (name : String) (held : Held) (handle : Handle) {puts' : String → List Put}
    (hname : handle.pending = puts' name) (hother : ∀ n ≠ name, puts' n = puts n) :
    (w.update name held handle).Keeps puts' where
  buffers := by
    intro n held' hget
    rw [get?_update] at hget
    split at hget
    · next hn =>
      cases hget
      rw [hn]
      exact hname
    · next hn =>
      rw [hother n hn]
      exact h.buffers n held' hget
  pools := h.pools

/-- A request that finds no handle under a name. -/
theorem emptied_of_none {name : String} (hnone : w.handles.get? name = none) :
    w.Keeps (emptied puts name) where
  buffers := by
    intro n held hget
    have hn : n ≠ name := by
      rintro rfl
      cases hnone.symm.trans hget
    rw [emptied, if_neg hn]
    exact h.buffers n held hget
  pools := h.pools

/-- A request that empties the handle under a name. -/
theorem withHandle_emptied (name : String) {f : Held → Answer π × Workspace π}
    (hf : ∀ held, (f held).2.Keeps (emptied puts name)) :
    (w.withHandle name f).2.Keeps (emptied puts name) := by
  unfold Workspace.withHandle
  split
  · next hnone => exact h.emptied_of_none hnone
  · exact hf _

/-- A request through a handle that leaves all buffers as they are. -/
theorem withHandle (name : String) {f : Held → Answer π × Workspace π}
    (hf : ∀ held, (f held).2.Keeps puts) : (w.withHandle name f).2.Keeps puts := by
  unfold Workspace.withHandle
  split
  · exact h
  · exact hf _

theorem openTable (table name : String) :
    (w.openTable table name).2.Keeps fun n =>
      bufferedBy n (puts n)
        (.request (.openTable table name), .answer (w.openTable table name).1) := by
  unfold Workspace.openTable Store.openTable
  split
  · next handle hopen =>
    split at hopen
    · cases hopen
      exact h.hold name rfl
    · cases hopen
  · exact h

theorem put (name : String) (more : List Put) :
    (w.withHandle name fun held => w.put name held more).2.Keeps fun n =>
      bufferedBy n (puts n) (.request (.put name more),
        .answer (w.withHandle name fun held => w.put name held more).1) := by
  unfold Workspace.withHandle
  split
  · exact h
  · next held hget =>
    unfold Workspace.put Handle.buffer
    dsimp only
    by_cases hempty : (more.any fun p => p.row.isEmpty) = true
    · rw [if_pos hempty]
      exact h
    · rw [if_neg hempty]
      refine h.update name held _ ?_ fun n hn => if_neg hn
      show held.handle.pending ++ more = if name = name then puts name ++ more else puts name
      rw [if_pos rfl, h.buffers name held hget]

theorem checkout (pool name : String) :
    (w.withPool pool fun p => w.checkout pool p name).2.Keeps fun n =>
      bufferedBy n (puts n) (.request (.checkout pool name),
        .answer (w.withPool pool fun p => w.checkout pool p name).1) := by
  unfold Workspace.withPool
  split
  · exact h
  · next p hpool =>
    obtain ⟨outcome, p', heq, hchecks⟩ := Pooling.checkout_checks p w.store
    have hw : { w with pools := w.pools.insert pool p' }.Keeps puts :=
      h.insertPool ((h.pools pool p hpool).checks hchecks) h.buffers
    dsimp only
    rw [Workspace.checkout, heq]
    cases outcome with
    | refused e => exact hw
    | waiting => exact hw
    | granted handle => exact hw.hold name hchecks.pending_eq_nil

/-- One request leaves in the buffers what it says. -/
theorem step (s : Step) :
    (w.step s).2.Keeps fun n => bufferedBy n (puts n) (.request s, .answer (w.step s).1) := by
  cases s with
  | openTable table name => exact h.openTable table name
  | put name more => exact h.put name more
  | checkout pool name => exact h.checkout pool name
  | flush name =>
    exact h.withHandle_emptied name fun held =>
      (h.withStore _).update name held _ (if_pos rfl).symm fun n hn => if_neg hn
  | discard name =>
    exact h.withHandle_emptied name fun held =>
      h.update name held _ (if_pos rfl).symm fun n hn => if_neg hn
  | release name => exact h.drop name
  | dump table =>
    unfold Workspace.step
    dsimp only
    split <;> exact h
  | get name request => exact h.withHandle name fun _ => h
  | delete name keys => exact h.withHandle name fun _ => h.withStore _
  | scan name request => exact h.withHandle name fun _ => h
  | openScan name request scan => exact h.withHandle name fun _ => ⟨h.buffers, h.pools⟩
  | next scan =>
    unfold Workspace.step
    dsimp only
    split
    · exact h
    · exact h
    · exact ⟨h.buffers, h.pools⟩
  | close scan =>
    unfold Workspace.step
    dsimp only
    split
    · exact h
    · exact ⟨h.buffers, h.pools⟩
  | openPool table maxSize pool =>
    refine h.insertPool (Pooling.fits_ofSize _ _) fun n held hget => ?_
    rw [SortedMap.get?_mapValues] at hget
    obtain ⟨old, hold, rfl⟩ := Option.map_eq_some_iff.1 hget
    have hbuffer := h.buffers n old hold
    split <;> exact hbuffer
  | closePool pool =>
    unfold Workspace.step withPool
    dsimp only
    split
    · exact h
    · exact h.insertPool (Pooling.fits_close _) h.buffers
  | setTime now later => exact h.withStore _
  | createTable table => exact h.withStore _
  | rowCount table => exact h

end Keeps

end Workspace

/-! ### Exchanges -/

/-- What a plan that goes well leaves of a store. -/
inductive Plan.Leaves (p : Plan) (table : String) (s : Store) : Store → Prop where
  | written {puts : List Put} {s' : Store} : p.operation = .put →
      List.Forall₂ Row.Writes p.batch puts → s.Gains table puts s' → Leaves p table s s'
  | deleted {keys : List Bytes} {s' : Store} : p.operation = .delete →
      List.Forall₂ Row.HasKey p.batch keys → s.Loses table keys s' → Leaves p table s s'
  | unchanged : p.operation = .get ∨ p.operation = .scan → Leaves p table s s

theorem Work.Performs.leaves {e : Endpoint} {m : Message} {p : Plan} {s s' : Session Store}
    {outcome : Outcome} (h : Work.Performs e m p s (.ok outcome s')) :
    p.Leaves s.handle.table s.connection s'.connection := by
  cases hop : p.operation with
  | put =>
    obtain ⟨puts, hwrites, hgains⟩ := h.gains hop
    exact .written hop hwrites hgains
  | delete =>
    obtain ⟨keys, hkeys, hloses⟩ := h.loses hop
    exact .deleted hop hkeys hloses
  | get =>
    rw [h.store_eq (.inl hop)]
    exact .unchanged (.inl hop)
  | scan =>
    rw [h.store_eq (.inr hop)]
    exact .unchanged (.inr hop)

namespace Connector

variable {π : Type} [Pooling π]

/-- What an exchange does to the pool and to the store: the handle that it was granted is given back
and stands idle again, and the store is as before or holds what the plan says. -/
structure GivesBack (k : Connector Store π) (x : Exchange)
    (result : Option (Except ConnectorError Unit)) (k' : Connector Store π) : Prop where
  fits : Pooling.Fits k'.pool
  granted : ∀ handle pool,
    Pooling.checkout k.pool k.connection = (.granted handle, pool, k.connection) →
    k'.pool = Pooling.release pool handle ∧ Pooling.Regains k.pool handle k'.pool
  notGranted : (∀ handle, (Pooling.checkout k.pool k.connection).1 ≠ .granted handle) →
    k'.pool = k.pool
  done : result = some (.ok ()) → ∃ handle plan,
    (Pooling.checkout k.pool k.connection).1 = .granted handle ∧
      k.endpoint.plan (k.endpoint.fillHeaders x.input) = .ok plan ∧
      plan.Leaves handle.table k.connection k'.connection
  notDone : result ≠ some (.ok ()) → k'.connection = k.connection

theorem Processed.givesBack {k : Connector Store π} {x : Exchange}
    {result : Option (Except ConnectorError Unit) × Exchange × Connector Store π}
    (h : k.Processed x result) (hfits : Pooling.Fits k.pool) :
    k.GivesBack x result.1 result.2.2 := by
  have hsame : ∀ {outcome},
      Pooling.checkout k.pool k.connection = (outcome, k.pool, k.connection) →
      (∀ handle, outcome ≠ .granted handle) → ∀ {result : Option (Except ConnectorError Unit)}
      {k' : Connector Store π}, k'.pool = k.pool → k'.connection = k.connection →
      result ≠ some (.ok ()) → k.GivesBack x result k' := by
    intro outcome hcheckout hnot result k' hpool hstore hresult
    refine ⟨by rw [hpool]; exact hfits, ?_, fun _ => hpool, fun hok => absurd hok hresult,
      fun _ => hstore⟩
    intro handle pool hgranted
    cases hcheckout.symm.trans hgranted
    exact absurd rfl (hnot handle)
  have hback : ∀ {handle pool},
      Pooling.checkout k.pool k.connection = (.granted handle, pool, k.connection) →
      ∀ {result : Option (Except ConnectorError Unit)} {k' : Connector Store π},
      k'.pool = Pooling.release pool handle →
      (result = some (.ok ()) → ∃ plan,
        k.endpoint.plan (k.endpoint.fillHeaders x.input) = .ok plan ∧
        plan.Leaves handle.table k.connection k'.connection) →
      (result ≠ some (.ok ()) → k'.connection = k.connection) → k.GivesBack x result k' := by
    intro handle pool hcheckout result k' hpool hdone hnot
    have hchecks := Pooling.checks_of_checkout_eq hcheckout
    have hgranted : (Pooling.checkout k.pool k.connection).1 = .granted handle :=
      congrArg Prod.fst hcheckout
    refine ⟨by rw [hpool]; exact (hfits.checks hchecks).release handle, ?_,
      fun hall => absurd hgranted (hall handle), ?_, hnot⟩
    · intro handle' pool' hgranted'
      cases hcheckout.symm.trans hgranted'
      rw [hpool]
      exact ⟨rfl, hfits.regains hchecks⟩
    · intro hok
      obtain ⟨plan, hplan, hleaves⟩ := hdone hok
      exact ⟨handle, plan, hgranted, hplan, hleaves⟩
  cases h with
  | waiting hcheckout => exact hsame hcheckout (by simp) rfl rfl (by simp)
  | refused hcheckout => exact hsame hcheckout (by simp) rfl rfl (by simp)
  | unplanned hcheckout => exact hback hcheckout rfl (fun h => by cases h) fun _ => rfl
  | failed hcheckout => exact hback hcheckout rfl (fun h => by cases h) fun _ => rfl
  | unwritten hcheckout => exact hback hcheckout rfl (fun h => by cases h) fun _ => rfl
  | done hcheckout hplan hperforms =>
    exact hback hcheckout rfl (fun _ => ⟨_, hplan, hperforms.leaves⟩) fun h => absurd rfl h

end Connector

namespace Workspace

variable {π : Type} [Pooling π]

theorem turn_exchange {w : Workspace π} {pool : String} {p : π}
    (hpool : w.pools.get? pool = some p) (e : Endpoint) (x : Exchange) :
    w.turn (.exchange pool e x) =
      (.processed ((w.connector e p).process x).1 ((w.connector e p).process x).2.1,
        w.afterwards pool ((w.connector e p).process x).2.2) := by
  rw [turn, hpool]

namespace Keeps

variable {w : Workspace π} {puts : String → List Put} (h : w.Keeps puts)
include h

theorem givesBack {pool : String} {p : π} (hpool : w.pools.get? pool = some p) (e : Endpoint)
    (x : Exchange) :
    (w.connector e p).GivesBack x ((w.connector e p).process x).1
      ((w.connector e p).process x).2.2 :=
  (Connector.processed_of_process_eq rfl).givesBack (h.pools pool p hpool)

/-- One turn leaves in the buffers what it says. -/
theorem turn (t : Turn) :
    (w.turn t).2.Keeps fun n => bufferedBy n (puts n) (t, (w.turn t).1) := by
  cases t with
  | request s => exact h.step s
  | exchange pool e x =>
    cases hpool : w.pools.get? pool with
    | none =>
      rw [Workspace.turn, hpool]
      exact h
    | some p =>
      have hafter : (w.afterwards pool ((w.connector e p).process x).2.2).Keeps puts :=
        (h.withStore _).insertPool (h.givesBack hpool e x).fits h.buffers
      rw [turn_exchange hpool]
      exact hafter

/-- A whole shared session leaves in the buffers what its turns say. -/
theorem runTurns (turns : List Turn) :
    (w.runTurns turns).2.Keeps fun n =>
      (turns.zip (w.runTurns turns).1).foldl (bufferedBy n) (puts n) := by
  induction turns generalizing w puts with
  | nil => exact h
  | cons t rest ih => exact ih (h.turn t)

end Keeps

/-- In a new workspace nothing is buffered. -/
theorem keeps_nothing (s : Store) :
    Keeps ({ store := s } : Workspace π) fun _ => [] where
  buffers := by
    intro name held hget
    cases hget
  pools := by
    intro pool p hget
    cases hget

end Workspace

/-- At any time of a session that clients share with connectors, on pools of any sizes, a flush
through a handle in use writes exactly the puts that were buffered under its name since it was
opened or checked out, flushed or emptied last, and leaves its buffer empty.  What an earlier holder
of the handle had buffered is not among them.

An exchange that is processed then gives the handle that it was granted back to the pool, in place
of the idle one that was recycled for it, and has written the puts of its own batch, if anything;
without a handle, or where it fails, it has written nothing. -/
theorem shared_flush_writes_buffered (π : Type) [Pooling π] (versions : Nat) (turns : List Turn) :
    let start : Workspace π := { store := .keeping versions }
    let session := start.runTurns turns
    let w := session.2
    let transcript := turns.zip session.1
    (∀ name held, w.handles.get? name = some held →
      let w' := (w.turn (.request (.flush name))).2
      w.store.Gains held.handle.table (buffered name transcript) w'.store ∧
        w'.handles.get? name = some { held with handle := held.handle.cleared }) ∧
    ∀ pool p e x, w.pools.get? pool = some p → ∃ result x' k',
      w.turn (.exchange pool e x) = (.processed result x', w.afterwards pool k') ∧
        (w.connector e p).GivesBack x result k' := by
  intro start session w transcript
  have hkeeps : w.Keeps fun n => buffered n transcript :=
    (Workspace.keeps_nothing (.keeping versions)).runTurns turns
  constructor
  · intro name held hget w'
    have hflush : w.turn (.request (.flush name)) = (.answer .done,
        { w with store := w.store.flush held.handle }.update name held held.handle.cleared) := by
      show (Reply.answer (w.withHandle name _).1, (w.withHandle name _).2) = _
      rw [Workspace.withHandle, hget]
    have hw' : w' = _ := congrArg Prod.snd hflush
    rw [hw', ← hkeeps.buffers name held hget]
    refine ⟨w.store.gains_flush held.handle, ?_⟩
    rw [Workspace.get?_update, if_pos rfl]
  · intro pool p e x hpool
    exact ⟨_, _, _, Workspace.turn_exchange hpool e x, hkeeps.givesBack hpool e x⟩

/-- One handle in two hands: what the first has buffered and not flushed is never written, neither
by the flush of the second nor by an exchange that comes after both. -/
theorem shared_flush_writes_buffered_second :
    let c : Column := ⟨[102], [113]⟩
    let turns : List Turn := [
      .request (.createTable "t"), .request (.openPool "t" 0 "p"), .request (.checkout "p" "a"),
      .request (.put "a" [⟨[7], [(c, [1])]⟩]), .request (.release "a"),
      .request (.checkout "p" "b"), .request (.put "b" [⟨[8], [(c, [2])]⟩])]
    let start : Workspace := { store := .keeping 3 }
    let w := (start.runTurns turns).2
    let flushed := (w.turn (.request (.flush "b"))).2
    let released := (start.runTurns (turns ++ [.request (.release "b")])).2
    let processed := (released.turn (.exchange "p" { config := { table := "t" } } {})).2
    flushed.store.versions "t" [7] c = [] ∧ flushed.store.versions "t" [8] c = [(1, [2])] ∧
      ∃ p, processed.pools.get? "p" = some p ∧ p.idle = [{ table := "t" }] := by
  intro c turns start
  let second : Put := ⟨[8], [(c, [2])]⟩
  let e : Endpoint := { config := { table := "t" } }
  obtain ⟨hflush, -⟩ := shared_flush_writes_buffered Pool 3 turns
  obtain ⟨-, hexchange⟩ := shared_flush_writes_buffered Pool 3 (turns ++ [.request (.release "b")])
  have hbuffered : buffered "b" (turns.zip (start.runTurns turns).1) = [second] := by
    decide +kernel
  have hheld : ((start.runTurns turns).2.handles.get? "b").map (·.handle.table) = some "t" := by
    decide +kernel
  have hversions :
      let s := (start.runTurns turns).2.store
      let view := View.putAll s.maxVersions (s.versions "t") ([second].zip (s.clock.stamps 1))
      view [7] c = [] ∧ view [8] c = [(1, [2])] := by decide +kernel
  have hidle : ((start.runTurns (turns ++ [.request (.release "b")])).2.pools.get? "p").map
      (fun p => (p.closed, p.size, p.maxSize, p.idle)) =
      some (false, 1, 1, [{ table := "t", pending := [second] }]) := by decide +kernel
  -- Nothing else of the two sessions counts.
  generalize start.runTurns turns = session at *
  generalize start.runTurns (turns ++ [.request (.release "b")]) = session' at *
  intro w flushed released processed
  obtain ⟨held, hget, htable⟩ := Option.map_eq_some_iff.1 hheld
  obtain ⟨hgains, -⟩ := hflush "b" held hget
  rw [hbuffered, htable] at hgains
  refine ⟨(congrFun (congrFun hgains.versions [7]) c).trans hversions.1,
    (congrFun (congrFun hgains.versions [8]) c).trans hversions.2, ?_⟩
  -- The released handle is granted to the exchange with its buffer emptied.
  obtain ⟨p, hpool, hp⟩ := Option.map_eq_some_iff.1 hidle
  simp only [Prod.mk.injEq] at hp
  obtain ⟨hopen, hsize, hmaxSize, hhandles⟩ := hp
  have hfits : Pooling.Fits p := .inr (Nat.le_of_eq (hsize.trans hmaxSize.symm))
  obtain ⟨result, x', k', hturn, hback⟩ := hexchange "p" p e {} hpool
  have hcheckout := Pool.checkout_recycled released.store hopen hhandles
  refine ⟨k'.pool, ?_, ?_⟩
  · have hturned : processed = released.afterwards "p" k' := congrArg Prod.snd hturn
    rw [hturned, Workspace.afterwards, SortedMap.get?_insert_eq, if_pos rfl]
  · have hreleased : k'.pool = _ := (hback.granted _ _ hcheckout).1
    rw [hreleased]
    refine (Pool.idle_release_of_granted hfits hcheckout).trans ?_
    rw [hhandles]
    rfl

end ColumnConnector
