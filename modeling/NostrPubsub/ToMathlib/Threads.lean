import Mathlib.Data.List.Infix
import NostrPubsub.ToMathlib.Mealy

/-!
# Threads that share a state

A `Thread` is what is left to do. It goes from one critical section to the next, and each of
them reads and changes the shared state in one piece. In between it asks its environment, and goes on
with whatever the answer is. A `World` is a shared state with the threads that work on it and the
history of what came from outside; any thread may be the next to move.

`Thread.Safe` is what a thread shows for itself: its critical sections keep an invariant, and it asks
only what it may, whatever the other threads do in between. Both depend on the history, and what is
known of a history stays true when it goes on. The rules follow the structure of a thread
(`Safe.bind`, `Safe.atomic`, `Safe.request`, `Safe.each`). Threads that are safe one by one are safe
together (`World.safe_run`).
-/

namespace Threads

/-- A thread with the shared state `σ` and the requests `ι`, that ends with an `α`. -/
inductive Thread (σ : Type) {ι : Type} (answer : ι → Type) (α : Type) where
  | done (a : α)
  /-- A critical section: what it does to the state, and how the thread goes on from what it saw. -/
  | critical (act : σ → σ) (next : σ → Thread σ answer α)
  /-- The thread waits for an answer. -/
  | ask (request : ι) (next : answer request → Thread σ answer α)

namespace Thread

variable {σ ι : Type} {answer : ι → Type} {α β : Type}

/-- One thread after the other. -/
protected def bind (thread : Thread σ answer α) (f : α → Thread σ answer β) : Thread σ answer β :=
  match thread with
  | .done a => f a
  | .critical act next => .critical act fun s => (next s).bind f
  | .ask request next => .ask request fun a => (next a).bind f

instance : Monad (Thread σ answer) where
  pure := .done
  bind := Thread.bind

/-- One critical section with a result. -/
def atomic (f : σ → α × σ) : Thread σ answer α :=
  .critical (fun s => (f s).2) fun s => .done (f s).1

/-- A critical section that only reads. -/
def read (f : σ → α) : Thread σ answer α := atomic fun s => (f s, s)

/-- A critical section without a result. -/
def modify (f : σ → σ) : Thread σ answer Unit := atomic fun s => ((), f s)

/-- Ask, and end with the answer. -/
def request (r : ι) : Thread σ answer (answer r) := .ask r .done

/-- Do something for every element of a list. -/
def each : List α → (α → Thread σ answer Unit) → Thread σ answer Unit
  | [], _ => .done ()
  | a :: rest, f => (f a).bind fun _ => each rest f

end Thread

/-! ## Histories -/

/-- What came from outside: the input that started a thread, or the answer to a request. -/
inductive Entry (τ : Type) {ι : Type} (answer : ι → Type) where
  | started (input : τ)
  | answered (request : ι) (a : answer request)

/-- An invariant of the state and a condition on requests. -/
structure Contract (σ τ : Type) {ι : Type} (answer : ι → Type) where
  Holds : List (Entry τ answer) → σ → Prop
  May : List (Entry τ answer) → ι → Prop
  /-- What is known of a history stays true when it goes on. -/
  mono : ∀ {history later s}, history <+: later → Holds history s → Holds later s

namespace Thread

variable {σ τ ι : Type} {answer : ι → Type} {α β : Type} {contract : Contract σ τ answer}

/-- The thread keeps to the contract after the history, and `post` holds where it ends. -/
def Safe (contract : Contract σ τ answer) (post : List (Entry τ answer) → α → Prop) :
    Thread σ answer α → List (Entry τ answer) → Prop
  | .done a, history => ∀ later, history <+: later → post later a
  | .critical act next, history => ∀ later s, history <+: later → contract.Holds later s →
      contract.Holds later (act s) ∧ Safe contract post (next s) later
  | .ask request next, history => ∀ later, history <+: later →
      contract.May later request ∧
        ∀ a, Safe contract post (next a) (later ++ [.answered request a])

namespace Safe

variable {post : List (Entry τ answer) → α → Prop} {post' : List (Entry τ answer) → β → Prop}
  {history later : List (Entry τ answer)} {thread : Thread σ answer α}

/-- Safe now is safe later. -/
theorem mono (h : Safe contract post thread history) (hlater : history <+: later) :
    Safe contract post thread later := by
  cases thread with
  | done a => exact fun last hlast => h last (hlater.trans hlast)
  | critical act next => exact fun last s hlast => h last s (hlater.trans hlast)
  | ask request next => exact fun last hlast => h last (hlater.trans hlast)

theorem pure {a : α} (h : ∀ later, history <+: later → post later a) :
    Safe contract post (Pure.pure a) history := h

/-- One safe thread after the other. -/
theorem bind {f : α → Thread σ answer β} (h : Safe contract post thread history)
    (hf : ∀ later a, history <+: later → post later a → Safe contract post' (f a) later) :
    Safe contract post' (thread >>= f) history := by
  show Safe contract post' (thread.bind f) history
  -- on the first thread; the history grows along with it
  induction thread generalizing history with
  | done a => exact hf history a List.prefix_rfl (h history List.prefix_rfl)
  | critical act next ih =>
    intro later s hlater hs
    obtain ⟨hact, hnext⟩ := h later s hlater hs
    exact ⟨hact, ih s hnext fun last a hlast => hf last a (hlater.trans hlast)⟩
  | ask request next ih =>
    intro later hlater
    obtain ⟨hmay, hnext⟩ := h later hlater
    refine ⟨hmay, fun a => ih a (hnext a) fun last b hlast => hf last b ?_⟩
    exact hlater.trans ((List.prefix_append _ _).trans hlast)

theorem atomic {f : σ → α × σ} (h : ∀ later s, history <+: later → contract.Holds later s →
    contract.Holds later (f s).2 ∧ ∀ last, later <+: last → post last (f s).1) :
    Safe contract post (Thread.atomic f) history := h

theorem read {f : σ → α} (h : ∀ later s, history <+: later → contract.Holds later s →
    ∀ last, later <+: last → post last (f s)) :
    Safe contract post (Thread.read f) history :=
  atomic fun later s hlater hs => ⟨hs, h later s hlater hs⟩

theorem modify {post : List (Entry τ answer) → Unit → Prop} {f : σ → σ}
    (h : ∀ later s, history <+: later → contract.Holds later s → contract.Holds later (f s))
    (hpost : ∀ later, history <+: later → post later ()) :
    Safe contract post (Thread.modify f) history :=
  atomic fun later s hlater hs => ⟨h later s hlater hs, fun last hlast =>
    hpost last (hlater.trans hlast)⟩

theorem request {r : ι} {post : List (Entry τ answer) → answer r → Prop}
    (hmay : ∀ later, history <+: later → contract.May later r)
    (hpost : ∀ later a last, history <+: later → later ++ [.answered r a] <+: last → post last a) :
    Safe contract post (Thread.request r) history :=
  fun later hlater => ⟨hmay later hlater, fun a last => hpost later a last hlater⟩

/-- Something safe for every element of a list. -/
theorem each {list : List α} {f : α → Thread σ answer Unit} {inv : List (Entry τ answer) → Prop}
    (hinv : ∀ {history later}, history <+: later → inv history → inv later)
    (hhistory : inv history)
    (h : ∀ a ∈ list, ∀ later, history <+: later → inv later →
      Safe contract (fun last _ => inv last) (f a) later) :
    Safe contract (fun last _ => inv last) (Thread.each list f) history := by
  induction list generalizing history with
  | nil => exact fun later hlater => hinv hlater hhistory
  | cons a rest ih =>
    refine bind (h a List.mem_cons_self history List.prefix_rfl hhistory) fun later _ hlater hlast => ?_
    exact ih hlast fun b hb last hle =>
      h b (List.mem_cons_of_mem a hb) last (hlater.trans hle)

end Safe

end Thread

/-! ## Worlds -/

/-- A shared state, the threads that work on it, and what came from outside. -/
structure World (σ τ : Type) {ι : Type} (answer : ι → Type) where
  state : σ
  threads : List (Thread σ answer Unit)
  history : List (Entry τ answer)

/-- What may happen next. -/
inductive World.Move (τ : Type) {ι : Type} (answer : ι → Type) where
  /-- An input starts its thread. -/
  | start (input : τ)
  /-- A thread goes through its next critical section. -/
  | proceed (index : ℕ)
  /-- The environment answers the request of a thread. -/
  | reply (index : ℕ) (answers : ∀ request, answer request)
  /-- A thread is cancelled. -/
  | cancel (index : ℕ)

namespace World

variable {σ τ ι : Type} {answer : ι → Type} (program : τ → Thread σ answer Unit)

/-- One move. Nothing happens where it is not possible. -/
def step (move : Move τ answer) (w : World σ τ answer) : Unit × World σ τ answer :=
  match move with
  | .start input =>
    ((), { w with threads := w.threads ++ [program input], history := w.history ++ [.started input] })
  | .proceed index =>
    match w.threads[index]? with
    | some (.critical act next) =>
      ((), { w with state := act w.state, threads := w.threads.set index (next w.state) })
    | _ => ((), w)
  | .reply index answers =>
    match w.threads[index]? with
    | some (.ask request next) =>
      ((), { w with
        threads := w.threads.set index (next (answers request))
        history := w.history ++ [.answered request (answers request)] })
    | _ => ((), w)
  | .cancel index => ((), { w with threads := w.threads.eraseIdx index })

/-- The world after some moves from a state without threads. -/
def run (s : σ) (moves : List (Move τ answer)) : World σ τ answer :=
  Mealy.after (step program) ⟨s, [], []⟩ moves

variable (contract : Contract σ τ answer)

/-- The world keeps to a contract: so does its state, so do its threads, and every request in the
history was one that might be made then. -/
structure Keeps (w : World σ τ answer) : Prop where
  holds : contract.Holds w.history w.state
  safe : ∀ thread ∈ w.threads, thread.Safe contract (fun _ _ => True) w.history
  asked : ∀ before request a, before ++ [.answered request a] <+: w.history →
    contract.May before request

variable {contract} {program}

/-- What is asked is asked after the history so far, or was asked before. -/
theorem asked_concat {history : List (Entry τ answer)} {entry : Entry τ answer}
    (h : ∀ before request a, before ++ [.answered request a] <+: history →
      contract.May before request)
    (hentry : ∀ request a, entry = .answered request a → contract.May history request)
    {before : List (Entry τ answer)} {request : ι} {a : answer request}
    (hbefore : before ++ [.answered request a] <+: history ++ [entry]) :
    contract.May before request := by
  rcases List.prefix_concat_iff.mp hbefore with heq | hbefore
  · obtain ⟨rfl, hlast⟩ := List.append_inj' heq rfl
    exact hentry request a (List.singleton_inj.mp hlast).symm
  · exact h before request a hbefore

/-- A move only adds to a history. -/
theorem prefix_step (move : World.Move τ answer) (w : World σ τ answer) :
    w.history <+: (World.step program move w).2.history := by
  cases move with
  | start input => exact List.prefix_append _ _
  | proceed index =>
    unfold World.step
    dsimp only
    split <;> exact List.prefix_rfl
  | reply index answers =>
    unfold World.step
    dsimp only
    split
    · exact List.prefix_append _ _
    · exact List.prefix_rfl
  | cancel index => exact List.prefix_rfl

/-- An input that is in the history after a move was there before, or was started by the move. -/
theorem started_of_step {move : World.Move τ answer} {w : World σ τ answer} {input : τ}
    (h : Entry.started input ∈ (World.step program move w).2.history) :
    Entry.started input ∈ w.history ∨ move = .start input := by
  cases move with
  | start other =>
    rcases List.mem_append.mp h with hold | hnew
    · exact .inl hold
    · cases List.mem_singleton.mp hnew
      exact .inr rfl
  | proceed index =>
    unfold World.step at h
    dsimp only at h
    split at h <;> exact .inl h
  | reply index answers =>
    unfold World.step at h
    dsimp only at h
    split at h
    · rcases List.mem_append.mp h with hold | hnew
      · exact .inl hold
      · cases List.mem_singleton.mp hnew
    · exact .inl h
  | cancel index => exact .inl h

/-- Every move keeps to the contract, if the threads that start do. -/
theorem Keeps.step (hstart : ∀ history input,
      (program input).Safe contract (fun _ _ => True) (history ++ [.started input]))
    (move : Move τ answer) {w : World σ τ answer} (h : w.Keeps contract) :
    (World.step program move w).2.Keeps contract := by
  have hset : ∀ {history : List (Entry τ answer)} (thread : Thread σ answer Unit) (index : ℕ),
      w.history <+: history → thread.Safe contract (fun _ _ => True) history →
      ∀ other ∈ w.threads.set index thread, other.Safe contract (fun _ _ => True) history := by
    intro history thread index hlater hthread other hother
    rcases List.mem_or_eq_of_mem_set hother with hmem | rfl
    · exact (h.safe other hmem).mono hlater
    · exact hthread
  cases move with
  | start input =>
    have hlater := List.prefix_append w.history [Entry.started input]
    refine ⟨contract.mono hlater h.holds, ?_, fun before request a => asked_concat h.asked ?_⟩
    · intro thread hthread
      rcases List.mem_append.mp hthread with hmem | hmem
      · exact (h.safe thread hmem).mono hlater
      · rw [List.mem_singleton.mp hmem]
        exact hstart w.history input
    · intro request a heq
      cases heq
  | proceed index =>
    unfold World.step
    dsimp only
    split
    · next act next hthread =>
      -- the section runs on the state of the moment, whatever the thread saw before
      have hsafe := h.safe _ (List.mem_of_getElem? hthread)
      obtain ⟨hact, hnext⟩ := hsafe w.history w.state List.prefix_rfl h.holds
      exact ⟨hact, hset _ _ List.prefix_rfl hnext, h.asked⟩
    · exact h
  | reply index answers =>
    unfold World.step
    dsimp only
    split
    · next request next hthread =>
      have hsafe := h.safe _ (List.mem_of_getElem? hthread)
      obtain ⟨hmay, hnext⟩ := hsafe w.history List.prefix_rfl
      have hlater := List.prefix_append w.history [Entry.answered request (answers request)]
      refine ⟨contract.mono hlater h.holds, hset _ _ hlater (hnext _),
        fun before other a => asked_concat h.asked ?_⟩
      intro other a heq
      cases heq
      exact hmay
    · exact h
  | cancel index =>
    exact ⟨h.holds, fun thread hthread => h.safe thread (List.mem_of_mem_eraseIdx hthread), h.asked⟩

/-- Threads that are safe one by one are safe together, in every order of their steps. -/
theorem safe_run {s : σ} (hinit : contract.Holds [] s) (hstart : ∀ history input,
      (program input).Safe contract (fun _ _ => True) (history ++ [.started input]))
    (moves : List (Move τ answer)) : (run program s moves).Keeps contract := by
  refine Mealy.invariant (fun move w h => Keeps.step hstart move h) ⟨hinit, ?_, ?_⟩ moves
  · intro thread hthread
    cases hthread
  · intro before request a hbefore
    simp at hbefore

end World

end Threads
