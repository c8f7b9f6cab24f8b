import ColumnConnector.Proofs.Store.Session

/-!
# Snapshots

An open scan keeps what it is to return from the moment it was opened, and a handle keeps its buffer
to itself.  What a session asks of one of them is answered as if it had asked for nothing else
(`Workspace.log_filter`).

`Reads` is the log of a scan: it returns what it was opened with, one result after the other, until
nothing is left or it is closed, and nothing from then on.
-/

namespace ColumnConnector

namespace Step

/-- The request goes to the scan. -/
def onScan (scan : String) : Step → Bool
  | .next name | .close name => name = scan
  | _ => false

/-- The name of the scan is given to a new one. -/
def opensScan (scan : String) : Step → Bool
  | .openScan _ _ name => name = scan
  | _ => false

/-- The request goes to the buffer of the handle. -/
def onBuffer (handle : String) : Step → Bool
  | .put name _ | .flush name | .discard name => name = handle
  | _ => false

/-- The name of the handle is given to a new one, or to none. -/
def movesHandle (handle : String) : Step → Bool
  | .openTable _ name | .checkout _ name | .release name => name = handle
  | _ => false

end Step

namespace Workspace

variable {π : Type}

/-- The requests of a session with their answers. -/
def log [Pooling π] (w : Workspace π) (steps : List Step) : List (Step × Answer π) :=
  steps.zip (w.run steps).1

theorem log_cons [Pooling π] (w : Workspace π) (s : Step) (steps : List Step) :
    w.log (s :: steps) = (s, (w.step s).1) :: (w.step s).2.log steps := rfl

/-! ### Requests to one part of a workspace -/

/-- Where some requests depend on one part of the workspace only, and no others change it, they are
answered as if they were the only ones. -/
theorem log_filter [Pooling π] {α : Type} (part : Workspace π → α) {own takes : Step → Bool}
    (hown : ∀ (w w' : Workspace π) (s : Step), own s = true → part w = part w' →
      (w.step s).1 = (w'.step s).1 ∧ part (w.step s).2 = part (w'.step s).2)
    (hother : ∀ (w : Workspace π) (s : Step), own s = false → takes s = false →
      part (w.step s).2 = part w)
    {w w' : Workspace π} (hpart : part w = part w') {steps : List Step}
    (hsteps : ∀ s ∈ steps, takes s = false) :
    ((w.log steps).filter fun e => own e.1) = w'.log (steps.filter own) ∧
      part (w.run steps).2 = part (w'.run (steps.filter own)).2 := by
  induction steps generalizing w w' with
  | nil => exact ⟨rfl, hpart⟩
  | cons s rest ih =>
    obtain ⟨hs, hrest⟩ := List.forall_mem_cons.1 hsteps
    -- On an own request both workspaces go on together, on any other only the first.
    cases hcase : own s with
    | true =>
      obtain ⟨hanswer, hpart'⟩ := hown w w' s hcase hpart
      obtain ⟨hlog, hend⟩ := ih hpart' hrest
      rw [List.filter_cons_of_pos (l := rest) hcase, log_cons, log_cons, ← hanswer, ← hlog]
      exact ⟨List.filter_cons_of_pos hcase, hend⟩
    | false =>
      have hskip : ¬ own s = true := by simp [hcase]
      obtain ⟨hlog, hend⟩ := ih ((hother w s hcase hs).trans hpart) hrest
      rw [List.filter_cons_of_neg (l := rest) hskip, log_cons, ← hlog]
      exact ⟨List.filter_cons_of_neg hskip, hend⟩

section Frames

variable {α : Type} {part : Workspace π → α} {w : Workspace π} {name : String}

theorem part_withHandle {f : Held → Answer π × Workspace π}
    (hf : ∀ held, part (f held).2 = part w) :
    part (w.withHandle name f).2 = part w := by
  unfold withHandle
  split
  · rfl
  · exact hf _

theorem part_withPool {f : π → Answer π × Workspace π} (hf : ∀ p, part (f p).2 = part w) :
    part (w.withPool name f).2 = part w := by
  unfold withPool
  split
  · rfl
  · exact hf _

end Frames

/-! ### Scans -/

theorem scans_drop [Pooling π] (w : Workspace π) (name : String) :
    (w.drop name).scans = w.scans := by
  unfold drop
  split
  · rfl
  · dsimp only
    split <;> rfl

theorem scans_hold [Pooling π] (w : Workspace π) (name : String) (held : Held) :
    (w.hold name held).scans = w.scans := scans_drop w name

/-- Only its own requests change what is left of a scan. -/
theorem get?_scans_step_other [Pooling π] (w : Workspace π) {scan : String} {s : Step}
    (hown : s.onScan scan = false) (hopens : s.opensScan scan = false) :
    (w.step s).2.scans.get? scan = w.scans.get? scan := by
  let part : Workspace π → Option (List StoreResult) := fun w => w.scans.get? scan
  show part (w.step s).2 = part w
  have hinsert : ∀ {other : String} (left : List StoreResult), scan ≠ other →
      part { w with scans := w.scans.insert other left } = part w :=
    fun left hne => (SortedMap.get?_insert_eq w.scans _ scan left).trans (if_neg hne)
  cases s with
  | setTime now later => rfl
  | createTable table => rfl
  | rowCount table => rfl
  | openPool table maxSize pool => rfl
  | dump table =>
    simp only [step]
    split <;> rfl
  | openTable table name =>
    simp only [step, openTable]
    split
    · exact congrArg (·.get? scan) (scans_hold w name _)
    · rfl
  | put name puts =>
    refine part_withHandle fun held => ?_
    unfold put
    split <;> rfl
  | flush name => exact part_withHandle fun held => rfl
  | discard name => exact part_withHandle fun held => rfl
  | get name request => exact part_withHandle fun held => rfl
  | delete name keys => exact part_withHandle fun held => rfl
  | scan name request => exact part_withHandle fun held => rfl
  | openScan name request other =>
    have hne : scan ≠ other := by simpa [Step.opensScan, eq_comm] using hopens
    exact part_withHandle fun held => hinsert _ hne
  | next other =>
    have hne : scan ≠ other := by simpa [Step.onScan, eq_comm] using hown
    simp only [step]
    split
    · rfl
    · rfl
    · exact hinsert _ hne
  | close other =>
    have hne : scan ≠ other := by simpa [Step.onScan, eq_comm] using hown
    simp only [step]
    split
    · rfl
    · exact hinsert _ hne
  | checkout pool name =>
    refine part_withPool fun p => ?_
    unfold checkout
    split
    · exact congrArg (·.get? scan) (scans_hold (_ : Workspace π) name _)
    · rfl
  | release name => exact congrArg (·.get? scan) (scans_drop w name)
  | closePool pool => exact part_withPool fun p => rfl

theorem step_next [Pooling π] {w : Workspace π} {scan : String} {left : List StoreResult}
    (h : w.scans.get? scan = some left) :
    (w.step (.next scan)).1 = .next left.head? ∧
      (w.step (.next scan)).2.scans.get? scan = some left.tail := by
  simp only [step, h]
  cases left with
  | nil => exact ⟨rfl, h⟩
  | cons r rest => exact ⟨rfl, by rw [SortedMap.get?_insert_eq, if_pos rfl]; rfl⟩

theorem step_close [Pooling π] {w : Workspace π} {scan : String} {left : List StoreResult}
    (h : w.scans.get? scan = some left) :
    (w.step (.close scan)).1 = .done ∧
      (w.step (.close scan)).2.scans.get? scan = some [] := by
  simp only [step, h]
  exact ⟨trivial, by rw [SortedMap.get?_insert_eq, if_pos rfl]⟩

/-- What a scan answers depends only on what is left of it. -/
theorem step_onScan [Pooling π] {w w' : Workspace π} {scan : String} {s : Step}
    (hown : s.onScan scan = true) (h : w.scans.get? scan = w'.scans.get? scan) :
    (w.step s).1 = (w'.step s).1 ∧
      (w.step s).2.scans.get? scan = (w'.step s).2.scans.get? scan := by
  cases hleft : w.scans.get? scan with
  | none =>
    have hleft' : w'.scans.get? scan = none := h.symm.trans hleft
    cases s with
    | next name | close name =>
      obtain rfl : name = scan := by simpa [Step.onScan] using hown
      simp only [step, hleft, hleft']
      exact ⟨trivial, trivial⟩
    | _ => cases hown
  | some left =>
    have hleft' : w'.scans.get? scan = some left := h.symm.trans hleft
    cases s with
    | next name =>
      obtain rfl : name = scan := by simpa [Step.onScan] using hown
      obtain ⟨hanswer, hrest⟩ := step_next hleft
      obtain ⟨hanswer', hrest'⟩ := step_next hleft'
      exact ⟨hanswer.trans hanswer'.symm, hrest.trans hrest'.symm⟩
    | close name =>
      obtain rfl : name = scan := by simpa [Step.onScan] using hown
      obtain ⟨hanswer, hrest⟩ := step_close hleft
      obtain ⟨hanswer', hrest'⟩ := step_close hleft'
      exact ⟨hanswer.trans hanswer'.symm, hrest.trans hrest'.symm⟩
    | _ => cases hown

/-- The log of a scan of which these results are left. -/
inductive Reads (scan : String) : List StoreResult → List (Step × Answer π) → Prop where
  | nil {left : List StoreResult} : Reads scan left []
  | next {left : List StoreResult} {log : List (Step × Answer π)} : Reads scan left.tail log →
      Reads scan left ((.next scan, .next left.head?) :: log)
  | close {left : List StoreResult} {log : List (Step × Answer π)} : Reads scan [] log →
      Reads scan left ((.close scan, .done) :: log)
  | other {left : List StoreResult} {log : List (Step × Answer π)} {s : Step} {answer : Answer π} :
      s.onScan scan = false → Reads scan left log → Reads scan left ((s, answer) :: log)

/-- A session reads a scan as long as its name is not given to another one. -/
theorem reads_log [Pooling π] {w : Workspace π} {scan : String} {left : List StoreResult}
    (h : w.scans.get? scan = some left) {steps : List Step}
    (hkept : ∀ s ∈ steps, s.opensScan scan = false) : Reads scan left (w.log steps) := by
  induction steps generalizing w left with
  | nil => exact .nil
  | cons s rest ih =>
    obtain ⟨hs, hrest⟩ := List.forall_mem_cons.1 hkept
    rw [log_cons]
    cases hcase : s.onScan scan with
    | false => exact .other hcase (ih ((get?_scans_step_other w hcase hs).trans h) hrest)
    | true =>
      cases s with
      | next name =>
        obtain rfl : name = scan := by simpa [Step.onScan] using hcase
        obtain ⟨hanswer, hleft⟩ := step_next h
        rw [hanswer]
        exact .next (ih hleft hrest)
      | close name =>
        obtain rfl : name = scan := by simpa [Step.onScan] using hcase
        obtain ⟨hanswer, hleft⟩ := step_close h
        rw [hanswer]
        exact .close (ih hleft hrest)
      | _ => cases hcase

/-- The results that a scan gives in a session. -/
def yielded (scan : String) (log : List (Step × Answer π)) : List StoreResult :=
  log.filterMap fun
    | (.next name, .next r) => if name = scan then r else none
    | _ => none

section Yields

variable {scan : String} {left : List StoreResult} {log : List (Step × Answer π)}

theorem yielded_cons_next (r : Option StoreResult) :
    yielded scan ((.next scan, .next r) :: log) = r.toList ++ yielded scan log := by
  cases r <;> simp [yielded]

theorem yielded_cons_other {s : Step} {answer : Answer π} (h : ∀ name, s = .next name → name ≠ scan) :
    yielded scan ((s, answer) :: log) = yielded scan log := by
  unfold yielded
  rw [List.filterMap_cons]
  split
  · next hnone => rfl
  · next hsome =>
    split at hsome
    · next name r heq =>
      obtain ⟨rfl, -⟩ := Prod.mk.inj heq
      rw [if_neg (h name rfl)] at hsome
      cases hsome
    · cases hsome

theorem yielded_append (before after : List (Step × Answer π)) :
    yielded scan (before ++ after) = yielded scan before ++ yielded scan after :=
  List.filterMap_append

namespace Reads

theorem yielded_prefix (h : Reads scan left log) : yielded scan log <+: left := by
  induction h with
  | nil => exact List.nil_prefix
  | @next left log _ ih =>
    rw [yielded_cons_next]
    cases left with
    | nil => exact ih
    | cons r rest => exact (List.prefix_cons_inj r).2 ih
  | close _ ih =>
    rw [yielded_cons_other (by simp), List.prefix_nil.1 ih]
    exact List.nil_prefix
  | other hs _ ih =>
    rw [yielded_cons_other fun name hname => by simpa [hname, Step.onScan] using hs]
    exact ih

/-- The log from some entry on is that of what is left there. -/
theorem drop_before {before after : List (Step × Answer π)}
    (h : Reads scan left (before ++ after)) : ∃ left', Reads scan left' after := by
  induction before generalizing left with
  | nil => exact ⟨left, h⟩
  | cons e rest ih =>
    cases h with
    | next hrest => exact ih hrest
    | close hrest => exact ih hrest
    | other _ hrest => exact ih hrest

/-- A scan that is not closed has given everything when it finds nothing more. -/
theorem yielded_eq_of_exhausted {before after : List (Step × Answer π)}
    (h : Reads scan left (before ++ (.next scan, .next none) :: after))
    (hopen : ∀ e ∈ before, e.1 ≠ .close scan) : yielded scan before = left := by
  induction before generalizing left with
  | nil =>
    generalize hnone : (none : Option StoreResult) = answer at h
    cases h with
    | next _ => exact (List.head?_eq_none_iff.1 hnone.symm).symm
    | other hs _ => simp [Step.onScan] at hs
  | cons e rest ih =>
    obtain ⟨he, hrest⟩ := List.forall_mem_cons.1 hopen
    cases h with
    | next hlog =>
      rw [yielded_cons_next, ih hlog hrest]
      cases left <;> rfl
    | close _ => exact absurd rfl he
    | other hs hlog =>
      rw [yielded_cons_other fun name hname => by simpa [hname, Step.onScan] using hs]
      exact ih hlog hrest

/-- Where nothing is left, nothing comes. -/
theorem answer_eq_none (h : Reads scan [] log) {answer : Answer π}
    (hmem : (.next scan, answer) ∈ log) : answer = .next none := by
  generalize hleft : ([] : List StoreResult) = left at h
  induction h with
  | nil => cases hmem
  | next _ ih =>
    subst hleft
    rcases List.mem_cons.1 hmem with heq | hmem
    · exact (Prod.mk.inj heq).2
    · exact ih hmem rfl
  | close _ ih =>
    rcases List.mem_cons.1 hmem with heq | hmem
    · cases (Prod.mk.inj heq).1
    · exact ih hmem rfl
  | other hs _ ih =>
    rcases List.mem_cons.1 hmem with heq | hmem
    · obtain ⟨rfl, -⟩ := Prod.mk.inj heq
      simp [Step.onScan] at hs
    · exact ih hmem hleft

/-- After it was found empty or closed, a scan gives nothing. -/
theorem answer_eq_none_of_ended {before after : List (Step × Answer π)} {e : Step × Answer π}
    (h : Reads scan left (before ++ e :: after))
    (hended : e = (.next scan, .next none) ∨ e.1 = .close scan) {answer : Answer π}
    (hmem : (.next scan, answer) ∈ after) : answer = .next none := by
  obtain ⟨left', hrest⟩ := h.drop_before
  obtain ⟨s, answer'⟩ := e
  cases hrest with
  | next hlog =>
    rcases hended with heq | heq
    · have hnone : left'.head? = none := Answer.next.inj (Prod.mk.inj heq).2
      rw [List.head?_eq_none_iff.1 hnone] at hlog
      exact hlog.answer_eq_none hmem
    · cases heq
  | close hlog => exact hlog.answer_eq_none hmem
  | other hs _ =>
    rcases hended with heq | rfl
    · obtain ⟨rfl, -⟩ := Prod.mk.inj heq
      simp [Step.onScan] at hs
    · simp [Step.onScan] at hs

end Reads

/-- A scan that is drained gives one result after the other, and then nothing. -/
theorem log_replicate_next [Pooling π] {w : Workspace π} (h : w.scans.get? scan = some left)
    (n : Nat) :
    w.log (List.replicate n (.next scan)) =
      (List.range n).map fun i => (.next scan, .next left[i]?) := by
  induction n generalizing w left with
  | zero => rfl
  | succ n ih =>
    obtain ⟨hanswer, hleft⟩ := step_next h
    rw [List.replicate_succ, log_cons, hanswer, ih hleft, List.range_succ_eq_map, List.map_cons,
      List.map_map, List.head?_eq_getElem?]
    simp only [List.getElem?_tail, Function.comp_def]

end Yields

/-! ### Buffers -/

/-- The handle under a name, wherever it came from. -/
def handle? (w : Workspace π) (name : String) : Option Handle :=
  (w.handles.get? name).map (·.handle)

theorem handle?_hold_other [Pooling π] (w : Workspace π) {name other : String} (held : Held)
    (hne : other ≠ name) : (w.hold other held).handle? name = w.handle? name := by
  unfold handle?
  rw [get?_hold, if_neg hne.symm]

theorem handle?_update_other (w : Workspace π) {name other : String} (held : Held) (h : Handle)
    (hne : other ≠ name) : (w.update other held h).handle? name = w.handle? name := by
  unfold handle?
  rw [get?_update, if_neg hne.symm]

/-- Only its own requests change a handle. -/
theorem handle?_step_other [Pooling π] (w : Workspace π) {name : String} {s : Step}
    (hown : s.onBuffer name = false) (hmoves : s.movesHandle name = false) :
    (w.step s).2.handle? name = w.handle? name := by
  let part : Workspace π → Option Handle := fun w => w.handle? name
  show part (w.step s).2 = part w
  cases s with
  | setTime now later => rfl
  | createTable table => rfl
  | rowCount table => rfl
  | openPool table maxSize pool =>
    show ((w.setPool pool _).handles.get? name).map (·.handle) = _
    unfold setPool
    rw [SortedMap.get?_mapValues, Option.map_map]
    apply congrArg fun f => (w.handles.get? name).map f
    funext held
    simp only [Function.comp]
    split <;> rfl
  | dump table =>
    simp only [step]
    split <;> rfl
  | openTable table other =>
    have hne : other ≠ name := by simpa [Step.movesHandle] using hmoves
    simp only [step, openTable]
    split
    · exact handle?_hold_other w _ hne
    · rfl
  | put other puts =>
    have hne : other ≠ name := by simpa [Step.onBuffer] using hown
    refine part_withHandle fun held => ?_
    unfold put
    split
    · exact handle?_update_other w held _ hne
    · rfl
  | flush other =>
    have hne : other ≠ name := by simpa [Step.onBuffer] using hown
    exact part_withHandle fun held => handle?_update_other _ held _ hne
  | discard other =>
    have hne : other ≠ name := by simpa [Step.onBuffer] using hown
    exact part_withHandle fun held => handle?_update_other w held _ hne
  | get other request => exact part_withHandle fun held => rfl
  | delete other keys => exact part_withHandle fun held => rfl
  | scan other request => exact part_withHandle fun held => rfl
  | openScan other request scan => exact part_withHandle fun held => rfl
  | next scan =>
    simp only [step]
    split <;> rfl
  | close scan =>
    simp only [step]
    split <;> rfl
  | checkout pool other =>
    have hne : other ≠ name := by simpa [Step.movesHandle] using hmoves
    refine part_withPool fun p => ?_
    unfold checkout
    split
    · exact handle?_hold_other _ _ hne
    · rfl
  | release other =>
    have hne : other ≠ name := by simpa [Step.movesHandle] using hmoves
    show ((w.drop other).handles.get? name).map (·.handle) = _
    rw [get?_drop, if_neg hne.symm]
    rfl
  | closePool pool => exact part_withPool fun p => rfl

/-- What is done through a name depends on the handle under it only. -/
theorem withHandle_congr {w w' : Workspace π} {name : String}
    {f g : Held → Answer π × Workspace π} (h : w.handle? name = w'.handle? name)
    (hfg : ∀ held held' : Held, held.handle = held'.handle →
      (f held).1 = (g held').1 ∧ (f held).2.handle? name = (g held').2.handle? name) :
    (w.withHandle name f).1 = (w'.withHandle name g).1 ∧
      (w.withHandle name f).2.handle? name = (w'.withHandle name g).2.handle? name := by
  have hsame := h
  unfold handle? at hsame
  unfold withHandle
  cases hheld : w.handles.get? name with
  | none =>
    rw [hheld, Option.map_none, eq_comm, Option.map_eq_none_iff] at hsame
    rw [hsame]
    exact ⟨rfl, h⟩
  | some held =>
    rw [hheld, Option.map_some, eq_comm, Option.map_eq_some_iff] at hsame
    obtain ⟨held', hheld', hhandle⟩ := hsame
    rw [hheld']
    exact hfg held held' hhandle.symm

theorem handle?_update_self (w : Workspace π) (name : String) (held : Held) (h : Handle) :
    (w.update name held h).handle? name = some h := by
  unfold handle?
  rw [get?_update, if_pos rfl]
  rfl

/-- What comes of a buffer depends on the handle only. -/
theorem step_onBuffer [Pooling π] {w w' : Workspace π} {name : String} {s : Step}
    (hown : s.onBuffer name = true) (h : w.handle? name = w'.handle? name) :
    (w.step s).1 = (w'.step s).1 ∧ (w.step s).2.handle? name = (w'.step s).2.handle? name := by
  cases s with
  | put other puts =>
    obtain rfl : other = name := by simpa [Step.onBuffer] using hown
    refine withHandle_congr h fun held held' hhandle => ?_
    unfold put
    rw [hhandle]
    split
    · exact ⟨rfl, by rw [handle?_update_self, handle?_update_self]⟩
    · exact ⟨rfl, h⟩
  | flush other =>
    obtain rfl : other = name := by simpa [Step.onBuffer] using hown
    refine withHandle_congr h fun held held' hhandle => ⟨rfl, ?_⟩
    rw [handle?_update_self, handle?_update_self, hhandle]
  | discard other =>
    obtain rfl : other = name := by simpa [Step.onBuffer] using hown
    refine withHandle_congr h fun held held' hhandle => ?_
    rw [handle?_update_self, handle?_update_self, hhandle]
    exact ⟨rfl, rfl⟩
  | _ => cases hown

/-- A session sees of a scan, whatever else it does in any order and through any handles, what the
scan would have returned to the same session without the rest right after it was opened.  That is a
prefix of what draining it at once gives, the whole if it is drained, and nothing more comes from a
scan that was found empty or closed.  A handle, too, has in its buffer what the session put there
through it, whatever else was done. -/
theorem scan_reads_snapshot [Pooling π] {w : Workspace π} {name scan : String} {held : Held}
    (hheld : w.handles.get? name = some held) (request : Scan) {steps : List Step}
    (hkept : ∀ s ∈ steps, s.opensScan scan = false) :
    let snapshot := w.store.scan held.handle request
    let opened := (w.step (.openScan name request scan)).2
    let log := opened.log steps
    (∀ n, opened.log (List.replicate n (.next scan)) =
        (List.range n).map fun i => (.next scan, .next snapshot[i]?)) ∧
      (log.filter fun e => e.1.onScan scan) = opened.log (steps.filter (Step.onScan scan)) ∧
      yielded scan log <+: snapshot ∧
      (∀ before after, log = before ++ (.next scan, .next none) :: after →
        (∀ e ∈ before, e.1 ≠ .close scan) → yielded scan log = snapshot) ∧
      (∀ before e after, log = before ++ e :: after →
        e = (.next scan, .next none) ∨ e.1 = .close scan →
        ∀ answer, (.next scan, answer) ∈ after → answer = .next none) ∧
      ∀ handle, (∀ s ∈ steps, s.movesHandle handle = false) →
        (log.filter fun e => e.1.onBuffer handle) =
            opened.log (steps.filter (Step.onBuffer handle)) ∧
          (opened.run steps).2.handle? handle =
            (opened.run (steps.filter (Step.onBuffer handle))).2.handle? handle := by
  intro snapshot opened log
  have hopened : opened.scans.get? scan = some snapshot := by
    simp only [opened, step, withHandle, hheld]
    rw [SortedMap.get?_insert_eq, if_pos rfl]
  have hreads : Reads scan snapshot log := reads_log hopened hkept
  refine ⟨log_replicate_next hopened, ?_, hreads.yielded_prefix, ?_, ?_, ?_⟩
  · exact (log_filter (fun w => w.scans.get? scan) (fun _ _ _ => step_onScan)
      (fun w _ => get?_scans_step_other w) rfl hkept).1
  · intro before after hlog hopen
    rw [hlog] at hreads
    have hall : yielded scan before = snapshot := hreads.yielded_eq_of_exhausted hopen
    have hprefix := hreads.yielded_prefix
    rw [yielded_append, hall] at hprefix
    rw [hlog, yielded_append, hall]
    exact hprefix.eq_of_length_le (by simp)
  · intro before e after hlog hended answer hmem
    rw [hlog] at hreads
    exact hreads.answer_eq_none_of_ended hended hmem
  · intro handle hmoves
    exact log_filter (fun w => w.handle? handle) (fun _ _ _ => step_onBuffer)
      (fun w _ => handle?_step_other w) rfl hmoves

/-- Both rows of a scan are deleted and another one is written while it is read. -/
theorem scan_reads_snapshot_deleted :
    let put (key : UInt8) : Put := ⟨[key], [(⟨[102], [113]⟩, [key])]⟩
    let w : Workspace := {
      store := ((Store.createTable {} "t").commit "t" (put 97)).commit "t" (put 98)
      handles := ⟨[("g", ⟨{ table := "t" }, none⟩), ("h", ⟨{ table := "t" }, none⟩)],
        by decide +kernel⟩ }
    let steps : List Step := [.next "s", .delete "g" [[97], [98]], .put "g" [put 99], .flush "g",
      .next "s", .next "s"]
    let snapshot := w.store.scan { table := "t" } {}
    let opened := (w.step (.openScan "h" {} "s")).2
    ((opened.log steps).filter fun e => e.1.onScan "s") = [(.next "s", .next snapshot[0]?),
        (.next "s", .next snapshot[1]?), (.next "s", .next snapshot[2]?)] ∧
      (snapshot.map fun r => r.row) = [[97], [98]] ∧
      (opened.run steps).2.store.rowCount "t" = 1 := by
  intro put w steps snapshot opened
  have hheld : w.handles.get? "h" = some ⟨{ table := "t" }, none⟩ := rfl
  have hkept : ∀ s ∈ steps, s.opensScan "s" = false := by simp [steps, Step.opensScan]
  obtain ⟨hdrained, hown, -⟩ := scan_reads_snapshot hheld {} hkept
  exact ⟨hown.trans (hdrained 3), by decide +kernel, by decide +kernel⟩

end Workspace

end ColumnConnector
