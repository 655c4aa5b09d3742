import NetPractice.Http.BufferSafety
import NetPractice.Http.Ownership
import NetPractice.Transition.Undefined

/-!
# Requests that overwrite memory

`parse_content` stores a NUL byte at an index that the client chooses.  Outside of
`m_read_buf` it overwrites another field of the object, or another object of `users`:
the step of the worker is undefined.  A request does so exactly when its content does
not fit at a call of `parse_content`.
-/

namespace NetPractice.Http

open NetPractice.Text
open NetPractice.Socket
open NetPractice.Transition

namespace HttpConn

variable {fs : FileSystem} {c d : HttpConn}

/-- Every store since `init` lies inside the buffer. -/
def StoresWithin (c : HttpConn) : Prop :=
  ∀ index ∈ c.stores, 0 ≤ index ∧ index < READ_BUFFER_SIZE

instance (c : HttpConn) : Decidable c.StoresWithin :=
  inferInstanceAs (Decidable (∀ index ∈ c.stores, _))

/-- The invariant of a session, wherever the connection is. -/
def Bounded (c : HttpConn) : Prop :=
  ∀ phase, Http.Bounded ⟨c, phase⟩

/-- The content fits at each call of `parse_content` in the main loop of
`process_read`. -/
def loopFits (fs : FileSystem) : Nat → LineStatus → HttpConn → Bool
  | 0, _, _ => true
  | fuel + 1, status, c =>
      match c.nextText status with
      | (.ok, c) =>
          decide c.ContentFits &&
            match c.handleText fs with
            | (.result _, _) => true
            | (.again status, c) => loopFits fs fuel status c
      | (_, _) => true

/-- The content fits at each call of `parse_content` in `process_read`. -/
def ContentsFit (c : HttpConn) (fs : FileSystem) : Prop :=
  loopFits fs c.loopFuel .ok c = true

instance (c : HttpConn) (fs : FileSystem) : Decidable (c.ContentsFit fs) :=
  inferInstanceAs (Decidable (_ = _))

/-! ## The body of the loop -/

theorem Bounded.within (bounded : Bounded c) : c.StoresWithin :=
  (bounded .waiting).stores

theorem Bounded.ordered (bounded : Bounded c) : c.Ordered :=
  (bounded .waiting).toOrdered

/-- Before the request has a result, nothing is stored at an index that the client
chooses. -/
theorem handleText_again_inside {next : LineStatus}
    (handled : c.handleText fs = (.again next, d)) : StoresInside c d := by
  by_cases state : c.checkState = .content
  · have stores := handleText_content_stores state handled
    rw [handleText_content state] at handled
    unfold onContent parseContent at handled
    by_cases complete : toInt (c.contentLength + c.checkedIdx) ≤ c.readIdx
    · rw [if_pos complete] at handled
      cases handled
    · rw [if_neg complete, List.append_nil] at stores
      exact ⟨[], by rw [stores, List.append_nil], by simp⟩
  · exact handleText_inside state handled

theorem StoresInside.within (inside : StoresInside c d) (within : c.StoresWithin) :
    d.StoresWithin :=
  StoresBounded.of_inside inside within

/-- A content that does not fit is a result of the request, with a store outside of the
buffer. -/
theorem Bounded.handleText_unfit {turn : Turn} (bounded : Bounded c) (unfit : ¬ c.ContentFits)
    (handled : c.handleText fs = (turn, d)) : (∃ code, turn = .result code) ∧ ¬ d.StoresWithin := by
  have outside : ¬ d.StoresWithin := by
    intro within
    have ordered := (handleText_spec handled).ordered bounded.ordered
    have step : ∃ phase, (⟨c, .handling⟩ : Session).next (.handle fs) = some ⟨d, phase⟩ := by
      cases turn with
      | result code => exact ⟨.finished code, by simp [Session.next, handled]⟩
      | again status => exact ⟨.scanning status, by simp [Session.next, handled]⟩
    rcases step with ⟨phase, step⟩
    have eventUnfit : ¬ Http.ContentFits ⟨c, .handling⟩ (.handle fs) :=
      fun fits => unfit (fits rfl)
    exact (bounded .handling).unbounded_content eventUnfit step ⟨ordered, within⟩
  cases turn with
  | result code => exact ⟨⟨code, rfl⟩, outside⟩
  | again status =>
      exact absurd ((handleText_again_inside handled).within bounded.within) outside

/-! ## The main loop -/

theorem processLoop_bounded {fuel : Nat} {status : LineStatus} (bounded : Bounded c)
    (fits : loopFits fs fuel status c = true) : Bounded (processLoop fs fuel status c).2 := by
  induction fuel generalizing status c with
  | zero => exact bounded
  | succ fuel ih =>
      rw [loopFits] at fits
      rw [processLoop]
      cases text : c.nextText status with
      | mk next d =>
          have scanned : Bounded d := (bounded (.scanning status)).onScan text
          rw [text] at fits
          cases next with
          | bad | «open» => exact scanned
          | ok =>
              rw [Bool.and_eq_true, decide_eq_true_iff] at fits
              rcases fits with ⟨fit, rest⟩
              cases handled : d.handleText fs with
              | mk turn e =>
                  have further : Bounded e := (scanned .handling).onHandle handled fit
                  rw [handled] at rest
                  dsimp only
                  rw [handled]
                  cases turn with
                  | result code => exact further
                  | again status => exact ih further rest

theorem processLoop_outside {fuel : Nat} {status : LineStatus} (bounded : Bounded c)
    (unfit : loopFits fs fuel status c ≠ true) :
    ¬ (processLoop fs fuel status c).2.StoresWithin := by
  induction fuel generalizing status c with
  | zero => exact absurd rfl unfit
  | succ fuel ih =>
      rw [loopFits] at unfit
      rw [processLoop]
      cases text : c.nextText status with
      | mk next d =>
          have scanned : Bounded d := (bounded (.scanning status)).onScan text
          rw [text] at unfit
          cases next with
          | bad | «open» => exact absurd rfl unfit
          | ok =>
              rw [Ne, Bool.and_eq_true, decide_eq_true_iff] at unfit
              cases handled : d.handleText fs with
              | mk turn e =>
                  rw [handled] at unfit
                  dsimp only
                  rw [handled]
                  by_cases fit : d.ContentFits
                  · have further : Bounded e := (scanned .handling).onHandle handled fit
                    cases turn with
                    | result code => exact absurd ⟨fit, rfl⟩ unfit
                    | again status => exact ih further fun rest => unfit ⟨fit, rest⟩
                  · rcases scanned.handleText_unfit fit handled with ⟨⟨code, rfl⟩, outside⟩
                    exact outside

/-- `process_read` stores inside the buffer exactly when the content fits at each call of
`parse_content`. -/
theorem Bounded.processRead_within_iff (bounded : Bounded c) :
    (c.processRead fs).2.StoresWithin ↔ c.ContentsFit fs := by
  constructor
  · intro within
    by_contra unfit
    exact processLoop_outside bounded unfit within
  · intro fits
    exact (processLoop_bounded bounded fits).within

/-! ## Reading and writing -/

theorem init_bounded (c : HttpConn) : Bounded c.init := by
  intro phase
  have before := Bounded.onStart c
  exact ⟨⟨⟨before.start, before.checked, before.read⟩, before.stores⟩, before.range⟩

theorem Bounded.read {answers : List Recv} {more : Bool} (bounded : Bounded c)
    (read : c.read answers = some (more, d)) : Bounded d :=
  (bounded .waiting).onRead read

theorem Bounded.processWrite (bounded : Bounded c) (code : HttpCode) :
    Bounded (c.processWrite code).2 := by
  intro phase
  have before := bounded phase
  rw [(c.processWrite_filled code).frame]
  exact ⟨⟨⟨before.start, before.checked, before.read⟩, before.stores⟩, before.range⟩

theorem Bounded.write {answers : List Send} {written : Written} (bounded : Bounded c)
    (wrote : c.write answers = some written) (result : written.result = true) :
    Bounded written.conn := by
  rcases write_continues wrote result with ⟨-, same⟩ | ⟨-, b, initialised⟩
  · rw [same]
    exact bounded
  · rw [initialised]
    exact b.init_bounded

end HttpConn

/-! ## The steps of the server -/

namespace Server

variable {s t : Server}

/-- The request that a worker processes next. -/
def held (s : Server) (worker : Nat) : Option Fd :=
  match s.workers[worker]? with
  | some (.holding request) => some request
  | _ => none

/-- A step is defined unless its thread stores outside of `m_read_buf`. -/
def Defined (s : Server) : ServerEvent → Prop
  | .process worker fs =>
      ∀ request ∈ s.held worker, ((s.users request).processRead fs).2.StoresWithin
  | _ => True

/-- The content fits whenever a worker calls `parse_content`. -/
def ContentFits (s : Server) : ServerEvent → Prop
  | .process worker fs => ∀ request ∈ s.held worker, (s.users request).ContentsFit fs
  | _ => True

instance (s : Server) : ∀ event, Decidable (s.ContentFits event)
  | .process worker _ => inferInstanceAs (Decidable (∀ request ∈ s.held worker, _))
  | .wait _ | .accept _ | .hangup | .read _ | .post | .write _ | .wake _ | .take _ | .arm _ =>
      isTrue trivial

/-- The invariant: what has been stored for the open connections lies inside their
buffers. -/
structure Intact (s : Server) : Prop extends Placed s where
  bounded : ∀ fd, s.opened fd = true → (s.users fd).Bounded

theorem start_intact (users : Fd → HttpConn) (threadNumber maxRequests : Nat) :
    Intact (start users threadNumber maxRequests) where
  toPlaced := start_placed users threadNumber maxRequests
  bounded fd isOpen := by cases isOpen

theorem held_of_running {worker : Nat} {request : Fd}
    (running : s.workers[worker]? = some (.holding request)) : request ∈ s.held worker := by
  unfold held
  rw [running]
  exact rfl

/-- A worker holds an open connection. -/
theorem Placed.opened_of_held {worker : Nat} {request : Fd} (placed : Placed s)
    (mem : request ∈ s.held worker) : s.opened request = true := by
  unfold Server.held at mem
  split at mem
  · rename_i running
    obtain rfl := Option.some.inj mem
    rcases placed.held running (if_pos rfl) fun _ ne => holding_place_ne ne with ⟨before, -⟩
    exact placed.opened _ (by rw [before]; simp)
  · cases mem

theorem Life.bounded {event : ServerEvent} {fd : Fd} (intact : Intact s)
    (fits : s.ContentFits event) (life : Life s event t fd) (isOpen : t.opened fd = true) :
    (t.users fd).Bounded := by
  cases life with
  | same opened user _ _ | moved opened user _ _ _ _ =>
      rw [user]
      exact intact.bounded fd (opened ▸ isOpen)
  | accepted _ _ _ user _ _ =>
      rw [user]
      exact HttpConn.init_bounded _
  | hungUp _ _ closed _ _ _ | readFailed closed _ _ _ _ _ | writeClosed _ _ closed _ _ _ _ _ _ =>
      rw [closed] at isOpen
      cases isOpen
  | received opened _ read user _ _ | refused _ _ _ opened _ read user _ _ =>
      rw [user]
      exact (intact.bounded fd (opened ▸ isOpen)).read read
  | @waits worker fs c step running opened _ parsed user _ _ =>
      subst step
      have fit := fits fd (held_of_running running)
      have result := HttpConn.processLoop_bounded (intact.bounded fd (opened ▸ isOpen)) fit
      change ((s.users fd).processRead fs).2.Bounded at result
      rw [user]
      rwa [parsed] at result
  | @answered worker fs code c d step running opened _ parsed _ filled user _ _ =>
      subst step
      have fit := fits fd (held_of_running running)
      have result := HttpConn.processLoop_bounded (intact.bounded fd (opened ▸ isOpen)) fit
      change ((s.users fd).processRead fs).2.Bounded at result
      rw [parsed] at result
      have prepared := result.processWrite code
      rw [user]
      rwa [filled] at prepared
  | written _ _ opened _ write result _ user _ _ =>
      rw [user]
      exact (intact.bounded fd (opened ▸ isOpen)).write write result

theorem next_intact : Preserves next ContentFits Intact := by
  intro s event t intact fits step
  exact {
    toPlaced := next_placed intact.toPlaced step
    bounded := fun fd => (next_life intact.toPlaced step fd).bounded intact fits }

/-- A step is defined exactly when the content fits. -/
theorem Intact.defined_iff (intact : Intact s) (event : ServerEvent) :
    s.Defined event ↔ s.ContentFits event := by
  cases event with
  | process worker fs =>
      have each : ∀ request ∈ s.held worker,
          (((s.users request).processRead fs).2.StoresWithin ↔ (s.users request).ContentsFit fs) :=
        fun request mem =>
          (intact.bounded request (intact.opened_of_held mem)).processRead_within_iff
      exact forall₂_congr each
  | wait | accept | hangup | read | post | write | wake | take | arm => exact Iff.rfl

/-- A property that has an exact guard holds in every state that the server may be in,
whatever an undefined step overwrites, if and only if each step meets the guard and the
content fits whenever `parse_content` is called. -/
theorem always_iff {property : Server → Prop} {guard : Server → ServerEvent → Prop} {bad : Server}
    (fails : ¬ property bad) {users : Fd → HttpConn} {threadNumber maxRequests : Nat}
    {events : List ServerEvent}
    (exact_guard : Along next property (start users threadNumber maxRequests) events ↔
      Meets next guard (start users threadNumber maxRequests) events)
    (finished : run next (start users threadNumber maxRequests) events = some t) :
    Always next Defined property (start users threadNumber maxRequests) events ↔
      Meets next (fun s event => guard s event ∧ s.ContentFits event)
        (start users threadNumber maxRequests) events :=
  always_iff_meets fails exact_guard next_intact (fun _ event intact => intact.defined_iff event)
    (start_intact users threadNumber maxRequests) finished

/-! ## One owner -/

/-- In a run, every open connection always has exactly one owner, whatever an undefined
step overwrites, if and only if every request that is read finds room in the queue and
the content fits whenever `parse_content` is called. -/
theorem owned_always_iff {users : Fd → HttpConn} {threadNumber maxRequests : Nat}
    {events : List ServerEvent}
    (finished : run next (start users threadNumber maxRequests) events = some t) :
    Always next Defined Owned (start users threadNumber maxRequests) events ↔
      Meets next (fun s event => s.QueueRoom event ∧ s.ContentFits event)
        (start users threadNumber maxRequests) events := by
  have fails : ¬ Owned { start users 0 0 with opened := fun _ => true } := by
    intro owned
    rcases owned.place 0 rfl with ⟨place, place_eq⟩
    cases place_eq
  exact always_iff fails (owned_along_iff finished) finished

/-- A client sends a request with a body of three bytes, which the worker answers. -/
def threeBytes : List ServerEvent :=
  [.wait [.listen], .accept 5, .wait [.client 5 false (some .epollin)],
    .read [.data (ascii "GET / HTTP/1.1\r\nContent-Length: 3\r\n\r\nabc"), .again], .post,
    .wake 0, .take 0, .process 0 noFiles, .arm 0]

theorem owned_always_threeBytes :
    Always next Defined Owned (start (fun _ => zeroConn) 1 1) threeBytes :=
  (owned_always_iff (Option.some_get (by decide +kernel :
    (run next (start (fun _ => zeroConn) 1 1) threeBytes).isSome = true)).symm).mpr
      (by decide +kernel)

end Server

end NetPractice.Http
