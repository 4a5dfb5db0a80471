import AiBackend.Ingestion.IngestSegments
import AiBackend.Support.Run
import Mathlib.Data.Set.Function
import Mathlib.Data.List.Dedup
import Mathlib.Data.List.Induction

/-!
# One document for each tenant and content

Ingest calls that nothing disturbs, one after the other, on a table that starts
empty.  The duplicate check looks at the tenant and the hash of the content, so
as long as the hash tells the contents apart, a call is a duplicate exactly
when its pair of tenant and content came before.  What carries this through a
run is that the rows hold the pairs of the calls done so far, each of them once,
and that a row, once stored, stays at its place.
-/

namespace AiBackend
namespace IngestDocument

open Program Python PostgresDocumentRepository Run

/-! ## Undisturbed calls -/

/-- An ingest call whose collection identifier can be read.  The database
visits the rows in an order of its own, and the queue takes the job. -/
structure Call where
  request : Request
  tenantId : TenantId
  scan : List DocumentRow → List DocumentRow
  readable : Readable request
  scan_perm : ∀ rows, (scan rows).Perm rows

namespace Call

def outside (call : Call) : Outside := ⟨call.scan, true⟩

def run (env : Env) (call : Call) : Prog Response :=
  execute env call.outside Faults.none call.request call.tenantId

/-- What the duplicate check should tell calls apart by. -/
def pair (call : Call) : TenantId × String :=
  (call.tenantId, call.request.content)

end Call

/-- The tenant and the content a row was stored for. -/
def rowPair (row : DocumentRow) : TenantId × String :=
  (row.tenantId, row.content)

/-- What a call has answered and left: it found a row, or it stored and marked
a document of its own and enqueued a job for it. -/
inductive Outcome (env : Env) (call : Call) (s₀ : State) (response : Response)
    (s : State) : Prop where
  | duplicate (row : DocumentRow) (mem : row ∈ s₀.documents.items)
      (found : IsDuplicate env.contentHash call.tenantId call.request.content row)
      (unchanged : Unchanged s₀ s)
      (answer : response = ⟨row.documentId.str, "duplicate", "duplicate"⟩)
  | created (document marked : Document) (now : Timestamp) (jobId : IngestionJobId)
      (new : ∀ row ∈ s₀.documents.items,
        ¬ IsDuplicate env.contentHash call.tenantId call.request.content row)
      (tenantId : document.tenantId = call.tenantId)
      (content : document.content = call.request.content)
      (drawn : ∃ i, s₀.uuids ≤ i ∧ i < s.uuids ∧ document.documentId = env.uuid4 i)
      (sameId : marked.documentId = document.documentId)
      (processing : marked.status = .processing)
      (documents : s.documents = PostgresDocumentRepository.update
        (PostgresDocumentRepository.save env.contentHash s₀.documents document)
        marked now)
      (jobs : s.jobs = s₀.jobs ++
        [⟨call.tenantId.str, document.documentId.str, jobId.str, false⟩])
      (answer : response = ⟨document.documentId.str, jobId.str, "processing"⟩)

section OneCall

variable {env : Env} {call : Call}

/-- Of the two outcomes an undisturbed call always has one. -/
theorem ensures_run (s₀ : State) :
    Ensures (· = s₀) (call.run env) (Outcome env call s₀) fun _ _ => False := by
  refine ((ensures_checkSegment s₀).impRaise ?_).bind fun checked => ensures_of_fact ?_
  · rintro r s ⟨-, hraised | hraised⟩
    · exact hraised call.readable
    · exact hraised rfl
  intro h
  obtain ⟨-, -, id, hfound⟩ := h
  obtain ⟨collectionId, existing⟩ := checked
  apply ensures_pointwise
  intro s hs
  cases existing with
  | some document =>
      obtain ⟨row, hrow, hduplicate, rfl⟩ :=
        exists_of_findDuplicate (call.scan_perm _) hfound.symm
      refine (ensures_duplicateSegment s _).imp ?_ ?_
      · rintro response t ⟨rfl, rfl⟩
        exact .duplicate row hrow hduplicate hs rfl
      · rintro r t ⟨-, fault, hfault, -⟩
        cases hfault
  | none =>
      have hnew : ∀ row ∈ s₀.documents.items,
          ¬ IsDuplicate env.contentHash call.tenantId call.request.content row := by
        have hnone := (findDuplicate_eq_none_iff (call.scan_perm _)).mp hfound.symm
        intro row hrow hduplicate
        rw [duplicateIds, List.map_eq_nil_iff, List.filter_eq_nil_iff] at hnone
        exact hnone row hrow (by simpa using hduplicate)
      apply (ensures_newSegments s collectionId).impReturn
      intro response t h
      obtain ⟨document, marked, job, s₁, s₂, hinserted, hmarked, hprocessing,
        henqueued, rfl⟩ := h
      obtain ⟨now, hupdated⟩ := hmarked.documents
      refine .created document marked now job.jobId hnew hinserted.tenantId
        hinserted.content ⟨s.uuids + 1, ?_, ?_, hinserted.documentId⟩
        hmarked.documentId hprocessing ?_ ?_ ?_
      · have huuids := hs.uuids
        omega
      · have huuids := hinserted.uuids
        have huuids' := hmarked.uuids
        have huuids'' := henqueued.uuids
        omega
      · rw [henqueued.documents, hupdated, hinserted.documents, hs.documents]
      · rw [henqueued.jobs, hmarked.jobs, hinserted.jobs, hs.jobs, hmarked.documentId]
        rfl
      · rw [hmarked.documentId]

end OneCall

/-! ## Runs of calls -/

/-- One call after what the earlier ones have left. -/
def Call.step (env : Env) (s : State) (call : Call) : State :=
  finalState ((call.run env).run s)

/-- What a sequence of calls leaves, from nothing stored and nothing
enqueued. -/
def after (env : Env) (calls : List Call) : State :=
  final (Call.step env) { documents := KeyedList.empty } calls

/-- The hash tells the contents of the calls apart, and no identifier that they
draw is drawn twice. -/
structure Apart (env : Env) (calls : List Call) : Prop where
  contents : Set.InjOn env.contentHash
    {content | ∃ call ∈ calls, call.request.content = content}
  identifiers : Set.InjOn env.uuid4 {i | i < (after env calls).uuids}

/-- The arguments of the job name the tenant and the document of the row. -/
def JobOf (row : DocumentRow) (job : QueuedJob) : Prop :=
  job.tenantId = row.tenantId.str ∧ job.documentId = row.documentId.str

/-- What the table and the queue have of the calls done so far. -/
structure Kept (env : Env) (calls : List Call) (s : State) : Prop where
  distinct : (s.documents.items.map rowPair).Nodup
  pairs : ∀ pair, pair ∈ s.documents.items.map rowPair ↔ pair ∈ calls.map Call.pair
  hashed : ∀ row ∈ s.documents.items, row.contentHash = env.contentHash row.content
  drawn : ∀ row ∈ s.documents.items, ∃ i < s.uuids, row.documentId = env.uuid4 i
  processing : ∀ row ∈ s.documents.items, row.status = .processing
  jobs : List.Forall₂ JobOf s.documents.items s.jobs

/-- The call has stored the row and enqueued its job, and answers with both. -/
structure Ingested (env : Env) (call : Call) (s₀ : State) (response : Response)
    (s : State) (row : DocumentRow) (jobId : IngestionJobId) : Prop where
  documents : s.documents.items = s₀.documents.items ++ [row]
  jobs : s.jobs = s₀.jobs ++
    [⟨call.tenantId.str, row.documentId.str, jobId.str, false⟩]
  pair : rowPair row = call.pair
  hashed : row.contentHash = env.contentHash row.content
  drawn : ∃ i < s.uuids, row.documentId = env.uuid4 i
  processing : row.status = .processing
  answer : response = ⟨row.documentId.str, jobId.str, "processing"⟩

/-- The call has found the row and changed nothing. -/
structure Found (call : Call) (s₀ : State) (response : Response) (s : State)
    (row : DocumentRow) : Prop where
  mem : row ∈ s₀.documents.items
  pair : rowPair row = call.pair
  unchanged : Unchanged s₀ s
  answer : response = ⟨row.documentId.str, "duplicate", "duplicate"⟩

section OneStep

variable {env : Env} {call : Call} {calls : List Call} {s₀ s : State}
  {response : Response}

theorem run_eq_step (env : Env) (call : Call) (s : State) :
    ∃ response, (call.run env).run s = .ok response (call.step env s) ∧
      Outcome env call s response (call.step env s) := by
  have hspec : Ensures (· = s) (call.run env) (Outcome env call s) fun _ _ => False :=
    ensures_run s
  obtain ⟨response, s', hrun, houtcome⟩ := hspec.exists_ok rfl
  have hstep : call.step env s = s' := by rw [Call.step, hrun, finalState_ok]
  rw [hstep]
  exact ⟨response, hrun, houtcome⟩

theorem Outcome.uuids_le (h : Outcome env call s₀ response s) : s₀.uuids ≤ s.uuids := by
  cases h with
  | duplicate row mem found unchanged answer => exact unchanged.uuids
  | created document marked now jobId new tenantId content drawn =>
      obtain ⟨i, hi, his, -⟩ := drawn
      omega

/-- The check asks for the pair of the call, as long as the hash tells the
contents apart. -/
theorem Kept.isDuplicate_iff (h : Kept env calls s₀)
    (hcontents : Set.InjOn env.contentHash
      {content | ∃ other ∈ calls ++ [call], other.request.content = content})
    {row : DocumentRow} (hrow : row ∈ s₀.documents.items) :
    IsDuplicate env.contentHash call.tenantId call.request.content row ↔
      rowPair row = call.pair := by
  obtain ⟨other, hother, hpair⟩ :=
    List.mem_map.mp ((h.pairs _).mp (List.mem_map_of_mem hrow))
  have hcontent : other.request.content = row.content := congrArg Prod.snd hpair
  rw [IsDuplicate, h.hashed row hrow, rowPair, Call.pair, Prod.mk.injEq]
  refine and_congr_right fun _ => ⟨fun hhash => ?_, fun heq => by rw [heq]⟩
  exact hcontents ⟨other, List.mem_append_left _ hother, hcontent⟩
    ⟨call, by simp, rfl⟩ hhash

/-- Content that came before is found, other content is stored. -/
theorem Kept.outcome (h : Kept env calls s₀)
    (hcontents : Set.InjOn env.contentHash
      {content | ∃ other ∈ calls ++ [call], other.request.content = content})
    (hids : Set.InjOn env.uuid4 {i | i < s.uuids})
    (houtcome : Outcome env call s₀ response s) :
    (call.pair ∈ calls.map Call.pair ∧ ∃ row, Found call s₀ response s row) ∨
      (call.pair ∉ calls.map Call.pair ∧
        ∃ row jobId, Ingested env call s₀ response s row jobId) := by
  have huuids := houtcome.uuids_le
  cases houtcome with
  | duplicate row mem found unchanged answer =>
      have hpair := (h.isDuplicate_iff hcontents mem).mp found
      refine Or.inl ⟨(h.pairs _).mp (hpair ▸ List.mem_map_of_mem mem), row, ?_⟩
      exact ⟨mem, hpair, unchanged, answer⟩
  | created document marked now jobId new tenantId content drawn sameId processing
      documents jobs answer =>
      refine Or.inr ⟨fun hknown => ?_, updateRow marked now (newRow env.contentHash
        document), jobId, ?_⟩
      · obtain ⟨row, hrow, hpair⟩ := List.mem_map.mp ((h.pairs _).mpr hknown)
        exact new row hrow ((h.isDuplicate_iff hcontents hrow).mpr hpair)
      obtain ⟨i, hi, his, hid⟩ := drawn
      have hfresh : ∀ row ∈ s₀.documents.items,
          row.documentId ≠ document.documentId := by
        intro row hrow heq
        obtain ⟨j, hj, hrowId⟩ := h.drawn row hrow
        rw [hrowId, hid] at heq
        have hji : j = i := hids (hj.trans_le huuids) his heq
        omega
      refine ⟨?_, jobs, ?_, rfl, ⟨i, his, hid⟩, processing, answer⟩
      · rw [documents, update_save_items_of_new hfresh sameId]
      · exact Prod.ext tenantId content

theorem Kept.found (h : Kept env calls s₀) {row : DocumentRow}
    (hfound : Found call s₀ response s row) : Kept env (calls ++ [call]) s := by
  obtain ⟨hmem, hpair, ⟨hdocuments, hjobs, huuids⟩, -⟩ := hfound
  have hold : call.pair ∈ calls.map Call.pair :=
    (h.pairs _).mp (hpair ▸ List.mem_map_of_mem hmem)
  refine ⟨?_, fun pair => ?_, ?_, fun other hother => ?_, ?_, ?_⟩
  · rw [hdocuments]
    exact h.distinct
  · rw [hdocuments, h.pairs, List.map_append, List.mem_append, List.map_singleton,
      List.mem_singleton]
    refine ⟨Or.inl, fun hpair => hpair.elim id ?_⟩
    rintro rfl
    exact hold
  · rw [hdocuments]
    exact h.hashed
  · rw [hdocuments] at hother
    obtain ⟨i, hi, hid⟩ := h.drawn other hother
    exact ⟨i, hi.trans_le huuids, hid⟩
  · rw [hdocuments]
    exact h.processing
  · rw [hdocuments, hjobs]
    exact h.jobs

theorem Kept.ingested (h : Kept env calls s₀)
    (hnew : call.pair ∉ calls.map Call.pair) (huuids : s₀.uuids ≤ s.uuids)
    {row : DocumentRow} {jobId : IngestionJobId}
    (hingested : Ingested env call s₀ response s row jobId) :
    Kept env (calls ++ [call]) s := by
  obtain ⟨hdocuments, hjobs, hpair, hhashed, hdrawn, hprocessing, -⟩ := hingested
  have hmem : ∀ other, other ∈ s.documents.items ↔
      other ∈ s₀.documents.items ∨ other = row := by simp [hdocuments]
  refine ⟨?_, fun pair => ?_, fun other hother => ?_, fun other hother => ?_,
    fun other hother => ?_, ?_⟩
  · rw [hdocuments, List.map_append, List.map_singleton]
    refine List.Nodup.append h.distinct (List.nodup_singleton _) ?_
    rw [List.disjoint_singleton, hpair, h.pairs]
    exact hnew
  · rw [hdocuments, List.map_append, List.mem_append, h.pairs, List.map_append,
      List.mem_append, List.map_singleton, List.map_singleton, hpair]
  · rcases (hmem other).mp hother with hold | rfl
    · exact h.hashed other hold
    · exact hhashed
  · rcases (hmem other).mp hother with hold | rfl
    · obtain ⟨i, hi, hid⟩ := h.drawn other hold
      exact ⟨i, hi.trans_le huuids, hid⟩
    · exact hdrawn
  · rcases (hmem other).mp hother with hold | rfl
    · exact h.processing other hold
    · exact hprocessing
  · rw [hdocuments, hjobs]
    have htenant : row.tenantId = call.tenantId := congrArg Prod.fst hpair
    exact List.rel_append h.jobs (.cons ⟨by rw [htenant], rfl⟩ .nil)

end OneStep

/-! ## Whole runs -/

section Runs

variable {env : Env} {call : Call} {calls later : List Call}

theorem after_append_singleton (env : Env) (calls : List Call) (call : Call) :
    after env (calls ++ [call]) = call.step env (after env calls) :=
  final_append _ _ _ _

theorem uuids_after_le (env : Env) (calls later : List Call) :
    (after env calls).uuids ≤ (after env (calls ++ later)).uuids := by
  induction later using List.reverseRecOn with
  | nil => rw [List.append_nil]
  | append_singleton later call ih =>
      rw [← List.append_assoc, after_append_singleton]
      obtain ⟨response, -, houtcome⟩ := run_eq_step env call (after env (calls ++ later))
      exact ih.trans houtcome.uuids_le

theorem Apart.left (h : Apart env (calls ++ later)) : Apart env calls := by
  refine ⟨h.contents.mono ?_, h.identifiers.mono fun i hi =>
    lt_of_lt_of_le hi (uuids_after_le env calls later)⟩
  rintro content ⟨call, hcall, rfl⟩
  exact ⟨call, List.mem_append_left _ hcall, rfl⟩

/-- One more call on what a run has left. -/
theorem Kept.answer (h : Kept env calls (after env calls))
    (hapart : Apart env (calls ++ [call])) :
    ∃ response, (call.run env).run (after env calls) =
        .ok response (after env (calls ++ [call])) ∧
      ((call.pair ∈ calls.map Call.pair ∧ ∃ row,
          Found call (after env calls) response (after env (calls ++ [call])) row) ∨
        (call.pair ∉ calls.map Call.pair ∧ ∃ row jobId, Ingested env call
          (after env calls) response (after env (calls ++ [call])) row jobId)) := by
  obtain ⟨response, hrun, houtcome⟩ := run_eq_step env call (after env calls)
  rw [← after_append_singleton] at hrun houtcome
  exact ⟨response, hrun, h.outcome hapart.contents hapart.identifiers houtcome⟩

theorem kept_after (h : Apart env calls) : Kept env calls (after env calls) := by
  induction calls using List.reverseRecOn with
  | nil =>
      have hnone : ∀ row ∈ (after env []).documents.items, False :=
        fun _ hrow => List.not_mem_nil hrow
      refine ⟨List.nodup_nil, fun _ => Iff.rfl, ?_, ?_, ?_, .nil⟩
      · exact fun row hrow => (hnone row hrow).elim
      · exact fun row hrow => (hnone row hrow).elim
      · exact fun row hrow => (hnone row hrow).elim
  | append_singleton calls call ih =>
      have hkept := ih h.left
      obtain ⟨response, -, ⟨-, row, hfound⟩ | ⟨hnew, row, jobId, hingested⟩⟩ :=
        hkept.answer h
      · exact hkept.found hfound
      · exact hkept.ingested hnew (uuids_after_le env calls [call]) hingested

/-- A stored row stays at its place. -/
theorem items_prefix_after (h : Apart env (calls ++ later)) :
    (after env calls).documents.items <+:
      (after env (calls ++ later)).documents.items := by
  induction later using List.reverseRecOn with
  | nil => simp
  | append_singleton later call ih =>
      rw [← List.append_assoc] at h ⊢
      refine (ih h.left).trans ?_
      obtain ⟨response, -, ⟨-, row, hfound⟩ | ⟨-, row, jobId, hingested⟩⟩ :=
        (kept_after h.left).answer h
      · have hsame := congrArg KeyedList.items hfound.unchanged.documents
        exact ⟨[], (List.append_nil _).trans hsame.symm⟩
      · exact ⟨[row], hingested.documents.symm⟩

end Runs

/-- The answer to a call and what it leaves: a duplicate names the document of
the first call with its pair, any other call stores one document and enqueues
one job for it. -/
structure Answered (env : Env) (earlier : List Call) (call : Call)
    (response : Response) : Prop where
  run : (call.run env).run (after env earlier) =
    .ok response (after env (earlier ++ [call]))
  duplicate_iff : response.status = "duplicate" ↔
    ∃ other ∈ earlier, other.pair = call.pair
  duplicate : response.status = "duplicate" →
    ∃ before first between, earlier = before ++ first :: between ∧
      first.pair = call.pair ∧ (∀ other ∈ before, other.pair ≠ call.pair) ∧
      (∃ answer, (first.run env).run (after env before) =
          .ok answer (after env (before ++ [first])) ∧
        answer.documentId = response.documentId) ∧
      (after env (earlier ++ [call])).documents = (after env earlier).documents ∧
      (after env (earlier ++ [call])).jobs = (after env earlier).jobs
  stored : response.status ≠ "duplicate" →
    ∃ row jobId, Ingested env call (after env earlier) response
      (after env (earlier ++ [call])) row jobId

/-- The rows are one for each pair among the calls, and the jobs one for each
row. -/
structure OneForEachPair (calls : List Call) (s : State) : Prop where
  rows : (s.documents.items.map rowPair).Perm (calls.map Call.pair).dedup
  processing : ∀ row ∈ s.documents.items, row.status = .processing
  jobs : List.Forall₂ JobOf s.documents.items s.jobs

section Answers

variable {env : Env} {call : Call} {calls : List Call}

/-- Among calls with a given pair there is a first one. -/
theorem exists_first {pair : TenantId × String} (h : pair ∈ calls.map Call.pair) :
    ∃ before first between, calls = before ++ first :: between ∧
      first.pair = pair ∧ pair ∉ before.map Call.pair := by
  obtain ⟨before, between, heq, hnew⟩ := List.eq_append_cons_of_mem h
  obtain ⟨before, between, rfl, rfl, hrest⟩ := List.map_eq_append_iff.mp heq
  obtain ⟨first, between, rfl, hfirst, rfl⟩ := List.map_eq_cons_iff.mp hrest
  exact ⟨before, first, between, rfl, hfirst, hnew⟩

/-- The row a later call finds is the one that the first call with its pair has
stored. -/
theorem Found.documentId_first {before between : List Call} {first : Call}
    {response : Response} {s : State} {row : DocumentRow}
    (hapart : Apart env (before ++ first :: between))
    (hnew : first.pair ∉ before.map Call.pair) (hpair : first.pair = call.pair)
    (hfound : Found call (after env (before ++ first :: between)) response s row) :
    ∃ answer, (first.run env).run (after env before) =
        .ok answer (after env (before ++ [first])) ∧
      answer.documentId = row.documentId.str := by
  rw [List.append_cons] at hapart hfound
  have hfirst : Apart env (before ++ [first]) := hapart.left
  obtain ⟨answer, hrun, ⟨hold, -⟩ | ⟨-, stored, jobId, hingested⟩⟩ :=
    (kept_after hfirst.left).answer hfirst
  · exact absurd hold hnew
  have hstored : stored ∈ (after env (before ++ [first] ++ between)).documents.items := by
    refine (items_prefix_after hapart).subset ?_
    rw [hingested.documents]
    exact List.mem_append_right _ (List.mem_singleton_self _)
  have hsame : stored = row :=
    List.inj_on_of_nodup_map (kept_after hapart).distinct hstored hfound.mem
      (hingested.pair.trans (hpair.trans hfound.pair.symm))
  refine ⟨answer, hrun, ?_⟩
  rw [hingested.answer, hsame]

theorem answered_of_apart (h : Apart env (calls ++ [call])) :
    ∃ response, Answered env calls call response := by
  have hmem : call.pair ∈ calls.map Call.pair ↔
      ∃ other ∈ calls, other.pair = call.pair := List.mem_map
  obtain ⟨response, hrun, ⟨hold, row, hfound⟩ | ⟨hnew, row, jobId, hingested⟩⟩ :=
    (kept_after h.left).answer h
  · have hstatus : response.status = "duplicate" := by rw [hfound.answer]
    refine ⟨response, hrun, iff_of_true hstatus (hmem.mp hold), fun _ => ?_,
      fun hother => absurd hstatus hother⟩
    obtain ⟨before, first, between, rfl, hpair, hfirst⟩ := exists_first hold
    obtain ⟨answer, hanswer, hid⟩ :=
      hfound.documentId_first h.left (hpair ▸ hfirst) hpair
    refine ⟨before, first, between, rfl, hpair, fun other hother heq => hfirst
      (heq ▸ List.mem_map_of_mem hother), ⟨answer, hanswer, ?_⟩,
      hfound.unchanged.documents, hfound.unchanged.jobs⟩
    rw [hid, hfound.answer]
  · have hstatus : response.status ≠ "duplicate" := by
      rw [hingested.answer]
      exact show "processing" ≠ "duplicate" by decide
    exact ⟨response, hrun, iff_of_false hstatus (hmem.not.mp hnew),
      fun hother => absurd hother hstatus, fun _ => ⟨row, jobId, hingested⟩⟩

/-- In every run of undisturbed calls each call is answered as it should be, and
in the end there are one row and one job for each pair of tenant and content. -/
theorem calls_ingest_each_pair_once (env : Env) (calls : List Call)
    (h : Apart env calls) :
    (∀ earlier call rest, calls = earlier ++ call :: rest →
      ∃ response, Answered env earlier call response) ∧
    OneForEachPair calls (after env calls) := by
  constructor
  · intro earlier call rest hcalls
    rw [List.append_cons] at hcalls
    subst hcalls
    exact answered_of_apart h.left
  · have hkept := kept_after h
    refine ⟨(List.perm_ext_iff_of_nodup hkept.distinct (List.nodup_dedup _)).mpr ?_,
      hkept.processing, hkept.jobs⟩
    intro pair
    rw [hkept.pairs, List.mem_dedup]

end Answers

/-- A note by the tenant, without a collection of its own. -/
def noteCall (tenantId : TenantId) : Call where
  request := noteRequest
  tenantId := tenantId
  scan := id
  readable := fun fresh => ⟨fresh, rfl⟩
  scan_perm := fun _ => List.Perm.refl _

/-- Two tenants with the same note, and the first of them once more. -/
def noteCalls : List Call := [noteCall ⟨1⟩, noteCall ⟨2⟩, noteCall ⟨1⟩]

theorem noteCalls_ingest_each_pair_once :
    (∀ earlier call rest, noteCalls = earlier ++ call :: rest →
      ∃ response, Answered noteEnv earlier call response) ∧
    OneForEachPair noteCalls (after noteEnv noteCalls) := by
  refine calls_ingest_each_pair_once noteEnv noteCalls ⟨fun _ _ _ _ heq => heq, ?_⟩
  have huuids : (after noteEnv noteCalls).uuids = 14 := rfl
  intro i hi j hj heq
  have hi : i < 14 := huuids ▸ hi
  have hj : j < 14 := huuids ▸ hj
  have hint : i % 2 ^ 128 = j % 2 ^ 128 :=
    congrArg (fun uuid : Uuid => uuid.int.val) heq
  omega

end IngestDocument
end AiBackend
