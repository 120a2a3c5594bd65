import Vsms.Message.Claim
import Vsms.Job.Model
import Vsms.Hooks.Claim

/-! # Claiming batches

`claim_batch` and `claim_webhook_attempts` over the three kinds of rows the workers claim, as
instances of competing consumers: any number of workers, whose reads and lease writes interleave in
any order with each other and with all other changes of the tables. A lease is a compare-and-swap,
so no version of a row is leased twice. A message or an attempt in a batch is owned by the worker
that wrote it. A job is too if it is `running`; a job whose lease had expired is returned `pending`,
with no owner, and callers must not run it. -/

namespace Vsms.Claim.Batch

open Vsms.Lib.Runs Vsms.Lib.Consumers Vsms.Lib.Guarded Vsms.Lib.Optimistic
open Vsms.Schema.Types Vsms.Schema.Messages Vsms.Schema.Jobs Vsms.Schema.Webhooks
open Vsms.Routing.Decide Vsms.Hooks.Claim

/-- One call of `claim_batch`. -/
structure Request where
  worker : String
  now : Time
  budget : ℕ

/-- One call of `claim_webhook_attempts`. -/
structure HooksRequest extends Request where
  served : ServedModes

/-- **Messages.** `take_lease` reads the routing tables, and the database has its own clock. -/
def messages : Claims Message String Unit Request (Option RoutingView × Time)
    (Illegal MessageState) where
  budget := Request.budget
  select := fun q => Message.Claim.candidates q.now q.budget
  lease := fun q c x =>
    (Message.Claim.takeLease c q.worker q.now x.1).map fun u row => row.update c.version u x.2

/-- **Jobs.** -/
def jobs : Claims Job String Unit Request Time (Illegal JobState) where
  budget := Request.budget
  select := fun q => Job.Model.candidates q.now q.budget
  lease := fun q c dbNow =>
    (Job.Model.takeLease c q.worker q.now).map fun u row => row.update c.version u dbNow

/-- **Webhook attempts.** -/
def attempts : Claims WebhookAttempt String WebhookEndpoints HooksRequest Time
    (Illegal AttemptState) where
  budget := fun q => q.budget
  select := fun q => webhookCandidates q.now q.budget q.served
  lease := fun q c dbNow =>
    (takeLease c q.worker q.now).map fun u row => row.update c.version u dbNow

/-! ### Who owns what is returned -/

def OwnsMessage (q : Request) (m : Message) : Prop := m.leaseOwner = some q.worker

def OwnsAttempt (q : HooksRequest) (a : WebhookAttempt) : Prop := a.leaseOwner = some q.worker

/-- The worker owns a job returned `running`; one returned `pending` is released. -/
def OwnsOrReleased (q : Request) (j : Job) : Prop :=
  (j.state = .running ∧ j.leaseOwner = some q.worker) ∨ (j.state = .pending ∧ j.leaseOwner = none)

theorem messages_lawful : messages.Lawful OwnsMessage where
  select := by
    intro q
    exact wp_query fun db => selected_selectRows q.budget (List.subset_append_right _ _)
  lease := by
    intro q c x write r r' hw hok
    obtain ⟨u, hu, rfl⟩ := Option.map_eq_some_iff.mp hw
    obtain ⟨hv, -, rfl⟩ := Schema.Messages.update_ok hok
    refine ⟨hv, by simp, Schema.Messages.written_id u x.2 r, ?_⟩
    unfold OwnsMessage
    rw [Schema.Messages.written_leaseOwner, (Message.Claim.takeLease_columns hu).2.2.2.2]
    rfl

theorem jobCandidates_wp (now : Time) (budget : ℕ) :
    (Job.Model.candidates now budget).wp (Selected budget) [] := by
  refine wp_bind (wp_query fun db => ?_)
  have hpending : Selected budget ([] ++ db.rows)
      (selectRows (Job.Model.Due now) Job.Model.claimOrder budget db.rows) :=
    selected_selectRows budget (List.subset_append_right _ _)
  exact wp_fill hpending

theorem jobs_lawful : jobs.Lawful OwnsOrReleased where
  select := fun q => jobCandidates_wp q.now q.budget
  lease := by
    intro q c dbNow write r r' hw hok
    obtain ⟨u, hu, rfl⟩ := Option.map_eq_some_iff.mp hw
    obtain ⟨hv, -, rfl⟩ := Schema.Jobs.update_ok hok
    refine ⟨hv, by simp, Schema.Jobs.written_id u dbNow r, ?_⟩
    unfold OwnsOrReleased
    rw [Schema.Jobs.written_state, Schema.Jobs.written_leaseOwner]
    unfold Job.Model.takeLease at hu
    split at hu
    · cases hu
      exact Or.inl ⟨rfl, rfl⟩
    · cases hu
      exact Or.inr ⟨rfl, rfl⟩
    · cases hu

theorem attempts_lawful : attempts.Lawful OwnsAttempt where
  select := fun q => webhookCandidates_wp q.now q.budget q.served
  lease := by
    intro q c dbNow write r r' hw hok
    obtain ⟨u, hu, rfl⟩ := Option.map_eq_some_iff.mp hw
    obtain ⟨hv, -, rfl⟩ := Schema.Webhooks.update_ok hok
    refine ⟨hv, by simp, Schema.Webhooks.written_id u dbNow r, ?_⟩
    unfold OwnsAttempt
    rw [Schema.Webhooks.written_leaseOwner, takeLease_leaseOwner hu]
    rfl

/-! ### Exclusive claims -/

/-- **What a kind of rows is promised in every run**, from any table: no version of a row is leased
twice; every batch has at most as many rows as asked for, all different and each one the worker's at
its write; and a lease is a write of the row in the table. -/
def Exclusive {ρ δ ω χ ε : Type} [Keyed ρ String] [Versioned ρ] (C : Claims ρ String δ ω χ ε)
    (Owned : ω → ρ → Prop) : Prop :=
  ∀ (db : Db ρ String δ) (as : List (Action ρ String δ ω χ)),
    Always C.step (fun s => (leasedVersions s.log).Nodup ∧ Batches C Owned s.log) (start db) as ∧
      Along C.step (fun s _ s' => LeaseWritten Owned s s') (start db) as

/-- **Claims of messages, jobs and webhook attempts are exclusive.** -/
theorem claims_exclusive : Exclusive messages OwnsMessage ∧ Exclusive jobs OwnsOrReleased ∧
    Exclusive attempts OwnsAttempt :=
  ⟨fun db as => ⟨messages_lawful.always db as, messages_lawful.along db as⟩,
    fun db as => ⟨jobs_lawful.always db as, jobs_lawful.along db as⟩,
    fun db as => ⟨attempts_lawful.always db as, attempts_lawful.along db as⟩⟩

/-- A job that is running with a lease that expired at the time 0. -/
def expiredJob : Job :=
  { enqueue (recurring ⟨"purge", 0, 3⟩ "j1" 0) with
    state := .running, leaseOwner := some "w1", leaseUntil := some 0, attempts := 1, version := 1 }

def expiredDb : Db Job String Unit where
  rows := [expiredJob]
  issued := ["j1"]
  rest := ()
  nodup := by decide
  issued_of_mem := by decide

/-- One call of `claim_batch`: two reads, one lease write. -/
def reclaimBatch : List (Action Job String Unit Request Time) :=
  [⟨0, .claim ⟨"w2", 1, 10⟩⟩, ⟨0, .read⟩, ⟨0, .read⟩, ⟨0, .collect⟩, ⟨0, .lease 1⟩, ⟨0, .finish⟩]

/-- The batch has a job that nobody owns. -/
theorem reclaimed_job_not_owned : ¬ (Exclusive messages OwnsMessage ∧
    Exclusive jobs (fun q j => j.leaseOwner = some q.worker) ∧ Exclusive attempts OwnsAttempt) := by
  rintro ⟨-, h, -⟩
  obtain ⟨s, hs, hlog⟩ : ∃ s, exec jobs.step (start expiredDb) reclaimBatch = some s ∧
      s.log.head? = some (.returned 0 ⟨"w2", 1, 10⟩
        [written Job.Model.reclaimPatch 1 expiredJob]) := exec_eval rfl
  have hmem := List.mem_of_mem_head? hlog
  obtain ⟨-, -, hown⟩ := ((h expiredDb reclaimBatch).1.last hs).2 _ _ _ hmem
  exact absurd (hown _ List.mem_cons_self).1 (by decide)

end Vsms.Claim.Batch
