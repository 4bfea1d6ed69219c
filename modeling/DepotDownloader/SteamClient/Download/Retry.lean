import DepotDownloader.SteamClient.Download.FileStep

/-! # Retrying a fetch

The loop in which a chunk task fetches its chunk, with the waits between the attempts.
It does what is meant exactly when there is an attempt at all and no wait overflows.
-/

namespace DepotDownloader.SteamClient

open Foundation Steam

/-- What the loop does. A wait is in nanoseconds. -/
inductive RetryEvent where
  | fetch (attempt : Nat)
  | wait (delay : Nat)
  deriving DecidableEq, Repr

namespace RetryConfig

variable (retry : RetryConfig) (answers : Nat → Except String Bytes)

/-- The loop from an attempt on, with so many attempts left. -/
def retryFrom : Nat → Nat → List RetryEvent × Except DownloadError Bytes
  -- no attempt has left data to unwrap
  | 0, _ => ([], .error .panic)
  | remaining + 1, attempt =>
      match answers attempt with
      | .ok data => ([.fetch attempt], .ok data)
      | .error text =>
          if attempt + 1 < retry.maxAttempts then
            match retry.delay attempt with
            | some delay =>
                let rest := retryFrom remaining (attempt + 1)
                (.fetch attempt :: .wait delay :: rest.1, rest.2)
            | .none => ([.fetch attempt], .error .panic)
          else ([.fetch attempt], .error (.fetch text))

def fetchWithRetry : List RetryEvent × Except DownloadError Bytes :=
  retry.retryFrom answers retry.maxAttempts 0

/-- An attempt, and the doubled wait behind it unless it is the last of so many. -/
def attemptEvents (fetches attempt : Nat) : List RetryEvent :=
  if attempt + 1 < fetches then [.fetch attempt, .wait (retry.initialDelay * 2 ^ attempt)]
  else [.fetch attempt]

def plan (fetches : Nat) : List RetryEvent :=
  (List.range fetches).flatMap (retry.attemptEvents fetches)

/-- The fetches end with the first success or with the last attempt. -/
structure EndsAt (fetches : Nat) : Prop where
  bounded : fetches ≤ retry.maxAttempts
  failed : ∀ attempt, attempt + 1 < fetches → ∃ text, answers attempt = .error text
  succeeded : fetches < retry.maxAttempts →
    ∃ attempt data, fetches = attempt + 1 ∧ answers attempt = .ok data

/-- A retry as it is meant to be. -/
structure Retries (run : List RetryEvent × Except DownloadError Bytes) : Prop where
  planned : ∃ fetches, EndsAt retry answers fetches ∧ run.1 = retry.plan fetches ∧
    ∀ attempt, fetches = attempt + 1 → run.2 = (answers attempt).mapError .fetch
  total : run.2 ≠ .error .panic

/-- No wait behind a failed attempt overflows. -/
def WaitsFit : Prop :=
  ∀ attempt, attempt + 1 < retry.maxAttempts →
    (∀ earlier ≤ attempt, ∃ text, answers earlier = .error text) →
      attempt < 32 ∧ retry.initialDelay * 2 ^ attempt < 2 ^ 64 * 1000000000

variable {retry answers} {attempt remaining : Nat}

theorem delay_of_fits
    (hfits : attempt < 32 ∧ retry.initialDelay * 2 ^ attempt < 2 ^ 64 * 1000000000) :
    retry.delay attempt = some (retry.initialDelay * 2 ^ attempt) := if_pos hfits

theorem plan_eq (fetches : Nat) :
    retry.plan fetches = (List.range' 0 fetches).flatMap (retry.attemptEvents fetches) := by
  rw [plan, List.range_eq_range']

/-- From an attempt on the loop follows the plan when no wait overflows. The induction
is on the attempts that are left. -/
theorem retryFrom_planned (hmax : attempt + remaining = retry.maxAttempts) (hleft : 0 < remaining)
    (hearlier : ∀ earlier < attempt, ∃ text, answers earlier = .error text)
    (hfits : retry.WaitsFit answers) :
    ∃ last, attempt ≤ last ∧ EndsAt retry answers (last + 1) ∧
      retry.retryFrom answers remaining attempt =
        ((List.range' attempt (last + 1 - attempt)).flatMap (retry.attemptEvents (last + 1)),
          (answers last).mapError .fetch) := by
  induction remaining generalizing attempt with
  | zero => omega
  | succ remaining ih =>
      rw [retryFrom]
      cases hanswer : answers attempt with
      | ok data =>
          refine ⟨attempt, le_rfl, ⟨by omega, fun earlier hlt => hearlier earlier (by omega),
            fun _ => ⟨attempt, data, rfl, hanswer⟩⟩, ?_⟩
          simp [attemptEvents, hanswer, Except.mapError]
      | error text =>
          have hupto : ∀ earlier ≤ attempt, ∃ text, answers earlier = .error text := by
            intro earlier hle
            rcases Nat.lt_or_eq_of_le hle with hlt | rfl
            · exact hearlier earlier hlt
            · exact ⟨text, hanswer⟩
          by_cases hmore : attempt + 1 < retry.maxAttempts
          · have hnext : attempt + 1 + remaining = retry.maxAttempts := by omega
            obtain ⟨last, hle, hends, hrest⟩ := ih hnext (by omega)
              (fun earlier hlt => hupto earlier (by omega))
            refine ⟨last, by omega, hends, ?_⟩
            have hcount : last + 1 - attempt = (last + 1 - (attempt + 1)) + 1 := by omega
            have hevents : retry.attemptEvents (last + 1) attempt =
                [.fetch attempt, .wait (retry.initialDelay * 2 ^ attempt)] := if_pos (by omega)
            simp only [hmore, if_true, delay_of_fits (hfits attempt hmore hupto), hrest, hcount,
              List.range'_succ, List.flatMap_cons, hevents, List.cons_append, List.nil_append]
          · refine ⟨attempt, le_rfl, ⟨by omega, fun earlier hlt => hearlier earlier (by omega),
              fun hlt => absurd hlt hmore⟩, ?_⟩
            simp [hmore, attemptEvents, hanswer, Except.mapError]

/-- The loop panics at the first wait that overflows. -/
theorem retryFrom_overflow {failing : Nat} (hmax : attempt + remaining = retry.maxAttempts)
    (hle : attempt ≤ failing) (hmore : failing + 1 < retry.maxAttempts)
    (hupto : ∀ earlier ≤ failing, ∃ text, answers earlier = .error text)
    (hover : ¬ (failing < 32 ∧ retry.initialDelay * 2 ^ failing < 2 ^ 64 * 1000000000)) :
    (retry.retryFrom answers remaining attempt).2 = .error .panic := by
  induction remaining generalizing attempt with
  | zero => omega
  | succ remaining ih =>
      obtain ⟨text, hanswer⟩ := hupto attempt hle
      have hnext : attempt + 1 < retry.maxAttempts := by omega
      rw [retryFrom, hanswer]
      simp only [hnext, if_true]
      cases hdelay : retry.delay attempt with
      | none => rfl
      | some delay =>
          have hne : attempt ≠ failing := by
            rintro rfl
            rw [RetryConfig.delay, if_neg hover] at hdelay
            cases hdelay
          exact ih (by omega) (by omega)

/-- A chunk task retries as it should exactly when it has an attempt at all and no wait
behind a failed attempt overflows. -/
theorem fetchWithRetry_retries_iff (retry : RetryConfig) (answers : Nat → Except String Bytes) :
    Retries retry answers (retry.fetchWithRetry answers) ↔
      0 < retry.maxAttempts ∧ retry.WaitsFit answers := by
  constructor
  · intro hretries
    constructor
    · by_contra hnone
      have hzero : retry.maxAttempts = 0 := by omega
      apply hretries.total
      rw [fetchWithRetry, hzero, retryFrom]
    · intro failing hmore hupto
      by_contra hover
      exact hretries.total
        (retryFrom_overflow (Nat.zero_add _) (Nat.zero_le _) hmore hupto hover)
  · rintro ⟨hsome, hfits⟩
    obtain ⟨last, -, hends, hrun⟩ := retryFrom_planned (Nat.zero_add _) hsome
      (fun earlier hlt => absurd hlt (Nat.not_lt_zero _)) hfits
    rw [fetchWithRetry, hrun]
    constructor
    · refine ⟨last + 1, hends, ?_, ?_⟩
      · rw [plan_eq]
        rfl
      · rintro attempt hattempt
        obtain rfl : last = attempt := by omega
        rfl
    · cases answers last <;> simp [Except.mapError]

/-- Without an attempt the loop panics, and it panics behind the 33rd failure. -/
theorem retry_panics :
    ¬ Retries ⟨0, 1000000000⟩ (fun _ => .ok []) (fetchWithRetry ⟨0, 1000000000⟩ fun _ => .ok []) ∧
      ¬ Retries ⟨34, 1⟩ (fun _ => .error "offline")
        (fetchWithRetry ⟨34, 1⟩ fun _ => .error "offline") := by
  constructor
  · intro hretries
    exact hretries.total rfl
  · intro hretries
    apply hretries.total
    exact retryFrom_overflow (Nat.zero_add _) (Nat.zero_le 32) (by decide)
      (fun _ _ => ⟨"offline", rfl⟩) (by decide)

end RetryConfig

def RetryEvent.attempt : RetryEvent → Option Nat
  | .fetch attempt => some attempt
  | .wait _ => none

namespace FileContext

variable (ctx : FileContext)

/-- What the fetcher answers to the attempts of a chunk task. -/
def answers (chunkTask : ChunkTask) (attempt : Nat) : Except String Bytes :=
  ctx.fetcher (ctx.fetchCall chunkTask attempt)

def retryRun (chunkTask : ChunkTask) : List RetryEvent × Except DownloadError Bytes :=
  ctx.job.retry.fetchWithRetry (ctx.answers chunkTask)

/-- What is left of the loop at an attempt. -/
def retryRest (chunkTask : ChunkTask) (attempt : Nat) :
    List RetryEvent × Except DownloadError Bytes :=
  ctx.job.retry.retryFrom (ctx.answers chunkTask) (ctx.job.retry.maxAttempts - attempt) attempt

/-- A chunk task at a stage is in the loop, or goes on with what the loop has given it. -/
def RetriedAt (chunkTask : ChunkTask) : ChunkStage → Prop
  | .fetch attempt =>
      (∃ before, (ctx.retryRun chunkTask).1 = before ++ (ctx.retryRest chunkTask attempt).1 ∧
        before.filterMap RetryEvent.attempt = List.range attempt) ∧
      (ctx.retryRun chunkTask).2 = (ctx.retryRest chunkTask attempt).2
  | .process raw => (ctx.retryRun chunkTask).2 = .ok raw
  | .lock _ data | .seek _ data | .write data =>
      ∃ raw, (ctx.retryRun chunkTask).2 = .ok raw ∧ ctx.processed chunkTask.chunk raw = .ok data
  | .done (.ok ()) => ∃ raw, (ctx.retryRun chunkTask).2 = .ok raw
  | .done (.error error) =>
      (ctx.retryRun chunkTask).2 = .error error ∨ ∃ raw, (ctx.retryRun chunkTask).2 = .ok raw

def Retried (chunkTask : ChunkTask) : Prop := ctx.RetriedAt chunkTask chunkTask.stage

variable {ctx} {chunkTask : ChunkTask} {attempt : Nat}

theorem retried_spawned (index : Nat) (chunk : ManifestChunk) (chunkId : ChunkId) :
    ctx.Retried ⟨index, chunk, chunkId, .fetch 0⟩ :=
  ⟨⟨[], rfl, rfl⟩, rfl⟩

/-- An answer of the fetcher takes the task on in the loop. -/
theorem retriedAt_fetched (hretried : ctx.RetriedAt chunkTask (.fetch attempt))
    (hattempt : attempt < ctx.job.retry.maxAttempts) :
    ctx.RetriedAt chunkTask (ctx.fetched chunkTask attempt) := by
  obtain ⟨⟨before, hevents, hbefore⟩, hresult⟩ := hretried
  have hleft : ctx.job.retry.maxAttempts - attempt =
      (ctx.job.retry.maxAttempts - (attempt + 1)) + 1 := by omega
  unfold retryRest at hevents hresult
  rw [hleft, RetryConfig.retryFrom] at hevents hresult
  unfold FileContext.fetched
  cases hanswer : ctx.fetcher (ctx.fetchCall chunkTask attempt) with
  | ok raw =>
      simp only [answers, hanswer] at hresult
      exact hresult
  | error text =>
      simp only [answers, hanswer] at hevents hresult
      by_cases hmore : attempt + 1 < ctx.job.retry.maxAttempts
      · simp only [hmore, if_true] at hevents hresult ⊢
        cases hdelay : ctx.job.retry.delay attempt with
        | none =>
            rw [hdelay] at hresult
            exact .inl hresult
        | some delay =>
            simp only [hdelay] at hevents hresult
            refine ⟨⟨before ++ [.fetch attempt, .wait delay], ?_, ?_⟩, hresult⟩
            · rw [hevents, List.append_assoc]
              rfl
            · rw [List.filterMap_append, hbefore, List.range_succ]
              rfl
      · simp only [hmore, if_false] at hresult ⊢
        exact .inl hresult

variable {world world' : World} {state state' : FileState}

theorem retried_advance {position : Nat} {stage : ChunkStage}
    (hall : ∀ other ∈ state.chunkTasks, ctx.Retried other)
    (hstage : ctx.RetriedAt chunkTask stage) :
    ∀ other ∈ (state.advance position chunkTask stage).chunkTasks, ctx.Retried other := by
  intro other hmem
  rcases List.mem_or_eq_of_mem_set hmem with hmem | rfl
  · exact hall other hmem
  · exact hstage

theorem retried_chunkStep {position : Nat} {fault : Option Nat}
    (hall : ∀ other ∈ state.chunkTasks, ctx.Retried other)
    (hstep : ctx.ChunkStep world state position fault world' state') :
    ∀ other ∈ state'.chunkTasks, ctx.Retried other := by
  have hat {chunkTask : ChunkTask} {stage : ChunkStage}
      (htask : state.chunkTasks[position]? = some chunkTask) (hstage : chunkTask.stage = stage) :
      ctx.RetriedAt chunkTask stage := hstage ▸ hall _ (List.mem_of_getElem? htask)
  cases hstep with
  | fetch htask hstage hattempt =>
      exact retried_advance hall (retriedAt_fetched (hat htask hstage) hattempt)
  | accepted htask hstage hprocessed =>
      exact retried_advance hall ⟨_, hat htask hstage, hprocessed⟩
  | unplaced htask hstage => exact retried_advance hall ⟨_, hat htask hstage⟩
  | locked htask _ hstage =>
      have hlock := hat htask hstage
      exact retried_advance hall hlock
  | sought htask _ hstage =>
      have hseek := hat htask hstage
      exact retried_advance hall hseek
  | seekFault htask _ hstage =>
      obtain ⟨raw, hraw, _⟩ := hat htask hstage
      exact retried_advance hall (.inr ⟨raw, hraw⟩)
  | wrote htask _ hstage =>
      obtain ⟨raw, hraw, _⟩ := hat htask hstage
      exact retried_advance hall ⟨raw, hraw⟩
  | writeFault htask _ hstage =>
      obtain ⟨raw, hraw, _⟩ := hat htask hstage
      exact retried_advance hall (.inr ⟨raw, hraw⟩)
  | noAttempt htask hstage hattempt =>
      apply retried_advance hall
      left
      rw [(hat htask hstage).2, retryRest, Nat.sub_eq_zero_of_le hattempt]
      rfl
  | rejected htask hstage => exact retried_advance hall (.inr ⟨_, hat htask hstage⟩)

theorem retried_step {move : FileMove} (hall : ∀ other ∈ state.chunkTasks, ctx.Retried other)
    (hstep : ctx.step (world, state) move = some (world', state')) :
    ∀ other ∈ state'.chunkTasks, ctx.Retried other := by
  rcases step_cases hstep with hmain | ⟨position, hchunk⟩
  · cases hmain with
    | chunkSpawned =>
        intro other hmem
        rcases List.mem_append.mp hmem with hmem | hmem
        · exact hall other hmem
        · rw [List.mem_singleton.mp hmem]
          exact retried_spawned _ _ _
    | _ => exact hall
  · exact retried_chunkStep hall hchunk

/-- The chunk tasks of the machine fetch by the loop: in every interleaving, a task that
is still fetching has made the attempts of the loop so far, and one that is through has
what the loop gives. -/
theorem chunkTask_retried {moves : List FileMove}
    (hrun : ctx.machine.run (world, .initial) moves = some (world', state')) :
    ∀ chunkTask ∈ state'.chunkTasks, ctx.Retried chunkTask := by
  have hstep : ∀ config move next, (∀ chunkTask ∈ config.2.chunkTasks, ctx.Retried chunkTask) →
      True → ctx.machine.step config move = some next →
        ∀ chunkTask ∈ next.2.chunkTasks, ctx.Retried chunkTask :=
    fun _ _ _ hall _ hstep => retried_step hall hstep
  refine ctx.machine.run_invariant hstep (fun _ _ => trivial) ?_ hrun
  intro chunkTask hmem
  cases hmem

end FileContext

end DepotDownloader.SteamClient
