import NetPractice.Http.Overwrites

/-!
# Ownership of file mappings

`do_request` maps a file for a connection, and `write` unmaps it behind the
response.  Neither `close_conn` nor `init` looks at `m_file_address`.  Mappings
and calls of `munmap` match as long as no connection hangs up in the middle of a
mapped response, no response ends with an address that is not its mapping, and no
content overwrites the fields of a connection.
-/

namespace NetPractice.Http

open NetPractice.Text
open NetPractice.Socket
open NetPractice.Transition

/-! ## Mapped responses -/

namespace HttpConn

/-- What `unmap` passes to `munmap`. -/
def mapping (c : HttpConn) : Munmap :=
  ⟨c.fileAddress, c.fileStat.size⟩

/-- The response in the buffers has a mapped file as its second block. -/
def ServesFile (c : HttpConn) : Prop :=
  c.writeBuf ≠ [] ∧ c.iv.length = 2 ∧ c.fileAddress ≠ 0 ∧ c.fileAddress ≠ MAP_FAILED

instance (c : HttpConn) : Decidable c.ServesFile :=
  inferInstanceAs (Decidable (_ ∧ _ ∧ _ ∧ _))

theorem not_servesFile_of_empty {c : HttpConn} (empty : c.writeBuf = []) : ¬ c.ServesFile :=
  fun serves => serves.1 empty

/-- The answer to a request serves the file that the request has mapped. -/
theorem processWrite_servesFile {b c d : HttpConn} {code : HttpCode} (parsed : Parsed b c code)
    (empty : c.writeBuf = []) (filled : c.processWrite code = (true, d)) :
    d.mapping = c.mapping ∧
      (d.ServesFile ↔ code = .fileRequest ∧ c.fileAddress ≠ MAP_FAILED) := by
  have frame := (c.processWrite_filled code).frame
  rw [filled] at frame
  change d = _ at frame
  have address : d.fileAddress = c.fileAddress := by rw [frame]
  have nonempty := (processWrite_prepared empty filled).nonempty
  refine ⟨by rw [frame]; rfl, ?_⟩
  unfold ServesFile
  rw [processWrite_blocks filled, address]
  constructor
  · rintro ⟨-, ⟨file, -⟩, -, mapped⟩
    exact ⟨file, mapped⟩
  · rintro ⟨file, mapped⟩
    obtain ⟨proper, sized⟩ := parsed.file file
    exact ⟨nonempty, ⟨file, fun size => mapped (sized size)⟩, proper, mapped⟩

theorem unmap_null {c : HttpConn} (null : c.fileAddress = 0) : c.unmap.1 = none := by
  unfold unmap
  rw [if_neg (not_not.mpr null)]

theorem unmap_some {c : HttpConn} (address : c.fileAddress ≠ 0) : c.unmap.1 = some c.mapping := by
  unfold unmap
  rw [if_pos address]
  rfl

/-- How `write` treats the file: it keeps the response, or ends it. -/
theorem write_munmap {c : HttpConn} {answers : List Send} {written : Written}
    (nonempty : c.writeBuf ≠ []) (wrote : c.write answers = some written) :
    (answers.getLast? = some .again ∧ written.munmap = none ∧ written.conn = c ∧
      written.result = true) ∨
    (answers.getLast? ≠ some .again ∧ written.munmap = c.unmap.1 ∧
      (written.result = true → written.conn.writeBuf = [])) := by
  cases write_cases nonempty wrote with
  | waits last => exact Or.inl ⟨last, rfl, rfl, rfl⟩
  | finished last =>
      refine Or.inr ⟨last, c.finishWrite_munmap, fun result => ?_⟩
      rcases finishWrite_init result with ⟨b, conn_eq⟩
      rw [conn_eq]
      rfl
  | failed last => exact Or.inr ⟨last, rfl, fun result => by cases result⟩

end HttpConn

namespace Server

/-! ## Released mappings -/

/-- The mappings are what has been mapped and not unmapped. -/
def Balanced (s : Server) : Prop :=
  s.mapped.Perm (s.unmapped ++ s.mappings.map Prod.snd)

/-- Every mapping has been released by one call of `munmap`, or is still the
mapping of an open connection, and there is no other call of `munmap`. -/
structure Released (s : Server) : Prop where
  balanced : s.Balanced
  owner : ∀ entry ∈ s.mappings, s.opened entry.1 = true ∧ entry.2 = (s.users entry.1).mapping

/-- The connection that a hang-up is reported for next. -/
def hangingUp (s : Server) : Option Fd :=
  match s.batch with
  | .client sockfd true _ :: _ => some sockfd
  | _ => none

/-- The connection that is reported as writable next. -/
def writing (s : Server) : Option Fd :=
  match s.batch with
  | .client sockfd false (some .epollout) :: _ => some sockfd
  | _ => none

/-- A connection does not hang up in the middle of a mapped response, and a
response that ends has no file address but the one of its second block. -/
def EndsMapping (s : Server) : ServerEvent → Prop
  | .hangup => ∀ sockfd ∈ s.hangingUp, ¬ (s.users sockfd).ServesFile
  | .write answers => ∀ sockfd ∈ s.writing, answers.getLast? ≠ some .again →
      (s.users sockfd).fileAddress = 0 ∨ (s.users sockfd).ServesFile
  | _ => True

instance (s : Server) : ∀ event, Decidable (s.EndsMapping event)
  | .hangup => inferInstanceAs (Decidable (∀ sockfd ∈ s.hangingUp, _))
  | .write _ => inferInstanceAs (Decidable (∀ sockfd ∈ s.writing, _))
  | .wait _ | .accept _ | .read _ | .post | .wake _ | .take _ | .process _ _ | .arm _ =>
      isTrue trivial

/-- The mapping that the response of a connection needs. -/
def serving (s : Server) (fd : Fd) : List (Fd × Munmap) :=
  if s.opened fd = true ∧ (s.users fd).ServesFile then [(fd, (s.users fd).mapping)] else []

/-- The invariant: each connection has the mapping that its response needs. -/
structure Accounted (s : Server) : Prop extends Placed s where
  filled : ∀ fd, ∀ place ∈ s.places fd, place.event = some .epollout → (s.users fd).writeBuf ≠ []
  maps : ∀ fd, s.mapsOf fd = s.serving fd
  balanced : s.Balanced

section Maps

variable {s t : Server} {fd : Fd}

theorem serving_closed (closed : s.opened fd = false) : s.serving fd = [] :=
  if_neg fun serves => by simp [closed] at serves

theorem serving_empty (empty : (s.users fd).writeBuf = []) : s.serving fd = [] :=
  if_neg fun serves => HttpConn.not_servesFile_of_empty empty serves.2

theorem serving_congr (opened : t.opened fd = s.opened fd) (user : t.users fd = s.users fd) :
    t.serving fd = s.serving fd := by
  unfold serving
  rw [opened, user]

theorem mem_mapsOf {entry : Fd × Munmap} : entry ∈ s.mappings ↔ entry ∈ s.mapsOf entry.1 := by
  simp [mapsOf]

theorem recordMap_mapsOf (s : Server) (fd : Fd) (code : HttpCode) (c : HttpConn) :
    (s.recordMap fd code c).mapsOf fd =
      if code = .fileRequest ∧ c.fileAddress ≠ MAP_FAILED then (fd, c.mapping) :: s.mapsOf fd
      else s.mapsOf fd := by
  unfold recordMap mapsOf
  split
  · exact List.filter_cons_of_pos (by simp)
  · rfl

theorem recordUnmap_mapsOf (s : Server) (fd : Fd) (munmap : Munmap) :
    (s.recordUnmap fd (some munmap)).mapsOf fd = (s.mapsOf fd).erase (fd, munmap) :=
  List.erase_filter.symm

/-- A response that ends takes its mapping with it. -/
theorem Accounted.ended (accounted : Accounted s) (opened : s.opened fd = true)
    (ends : (s.users fd).fileAddress = 0 ∨ (s.users fd).ServesFile) :
    (s.recordUnmap fd (s.users fd).unmap.1).mapsOf fd = [] := by
  have maps := accounted.maps fd
  unfold serving at maps
  rcases ends with null | serves
  · rw [if_neg fun serves => serves.2.2.2.1 null] at maps
    rw [HttpConn.unmap_null null]
    exact maps
  · rw [if_pos ⟨opened, serves⟩] at maps
    rw [HttpConn.unmap_some serves.2.2.1, recordUnmap_mapsOf, maps]
    exact List.erase_cons_head _ _

/-! ## One connection -/

theorem Life.filled {event : ServerEvent} (accounted : Accounted s) (life : Life s event t fd)
    {place : Place} (mem : place ∈ t.places fd) (output : place.event = some .epollout) :
    (t.users fd).writeBuf ≠ [] := by
  cases life with
  | same _ user places _ =>
      rw [user]
      exact accounted.filled fd place (places ▸ mem) output
  | moved _ user before after awaited _ =>
      rw [after, List.mem_singleton] at mem
      subst mem
      rw [user]
      exact accounted.filled fd _ (by rw [before]; simp) (awaited _ output)
  | accepted _ _ _ _ after _ | received _ _ _ _ after _ | waits _ _ _ _ _ _ after _ =>
      rw [after, List.mem_singleton] at mem
      subst mem
      cases output
  | hungUp _ _ _ _ after _ | refused _ _ _ _ _ _ _ after _ | readFailed _ _ _ _ after _
  | writeClosed _ _ _ _ _ _ _ after _ =>
      rw [after] at mem
      cases mem
  | @answered _ fs code c d _ _ _ before parsed _ filled user _ _ =>
      have kept := ((s.users fd).processRead_parsed fs).writeBuf
      rw [parsed] at kept
      have empty := accounted.empty fd (.worker .epollin) (by rw [before]; simp) rfl
      rw [user]
      exact (HttpConn.processWrite_prepared (kept.trans empty) filled).nonempty
  | written _ _ _ before write result interest_eq user after _ =>
      rw [after, List.mem_singleton] at mem
      subst mem
      obtain rfl := Option.some.inj output
      have nonempty := accounted.filled fd (.batch (some .epollout)) (by rw [before]; simp) rfl
      rw [user]
      cases HttpConn.write_cases nonempty write with
      | waits _ => exact nonempty
      | finished _ =>
          rw [HttpConn.finishWrite_interest] at interest_eq
          cases interest_eq
      | failed _ => cases result

/-- A connection that receives input has no mapping. -/
theorem Accounted.maps_of_input (accounted : Accounted s) {place : Place}
    (before : s.places fd = [place]) (input : place.event = some .epollin) : s.mapsOf fd = [] :=
  (accounted.maps fd).trans
    (serving_empty (accounted.empty fd place (by rw [before]; simp) input))

theorem Life.maps {event : ServerEvent} (accounted : Accounted s) (ends : s.EndsMapping event)
    (life : Life s event t fd) : t.mapsOf fd = t.serving fd := by
  cases life with
  | same opened user _ maps | moved opened user _ _ _ maps =>
      rw [maps, accounted.maps, serving_congr opened user]
  | accepted closed _ _ user _ maps =>
      rw [maps, accounted.maps, serving_closed closed, serving_empty (by rw [user]; rfl)]
  | hungUp step reported closed _ _ maps =>
      subst step
      have serves : ¬ (s.users fd).ServesFile := ends fd (by rw [hangingUp, reported]; rfl)
      rw [maps, accounted.maps, serving_closed closed]
      exact if_neg fun both => serves both.2
  | received _ before read user _ maps | refused _ _ _ _ before read user _ maps =>
      have empty := accounted.empty fd (.batch (some .epollin)) (by rw [before]; simp) rfl
      rw [maps, accounted.maps_of_input before rfl, serving_empty]
      rw [user, HttpConn.read_frame read]
      exact empty
  | readFailed closed before _ _ _ maps =>
      rw [maps, accounted.maps_of_input before rfl, serving_closed closed]
  | @waits _ fs c _ _ _ before parsed user _ maps =>
      have kept := ((s.users fd).processRead_parsed fs).writeBuf
      rw [parsed] at kept
      have empty := accounted.empty fd (.worker .epollin) (by rw [before]; simp) rfl
      rw [maps, accounted.maps_of_input before rfl, serving_empty]
      rw [user, kept]
      exact empty
  | @answered _ fs code c d _ _ opened before parsed _ filled user _ maps =>
      have result := (s.users fd).processRead_parsed fs
      rw [parsed] at result
      have empty := accounted.empty fd (.worker .epollin) (by rw [before]; simp) rfl
      obtain ⟨mapping, serves⟩ :=
        HttpConn.processWrite_servesFile result (result.writeBuf.trans empty) filled
      have isOpen : t.opened fd = true := by
        rw [opened]
        exact accounted.opened fd (by rw [before]; simp)
      rw [maps, recordMap_mapsOf, accounted.maps_of_input before rfl, serving, user, mapping]
      by_cases file : code = .fileRequest ∧ c.fileAddress ≠ MAP_FAILED
      · rw [if_pos file, if_pos ⟨isOpen, serves.mpr file⟩]
      · rw [if_neg file, if_neg fun both => file (serves.mp both.2)]
  | written step reported opened before write result _ user _ maps =>
      subst step
      have nonempty := accounted.filled fd (.batch (some .epollout)) (by rw [before]; simp) rfl
      have isOpen := accounted.opened fd (by rw [before]; simp)
      rcases HttpConn.write_munmap nonempty write with
        ⟨-, noMunmap, kept, -⟩ | ⟨last, munmap, empties⟩
      · rw [noMunmap] at maps
        rw [kept] at user
        exact maps.trans ((accounted.maps fd).trans (serving_congr opened user).symm)
      · rw [munmap] at maps
        rw [maps, accounted.ended isOpen (ends fd (by rw [writing, reported]; rfl) last)]
        rw [serving_empty (by rw [user]; exact empties result)]
  | writeClosed step reported closed before write result _ _ maps =>
      subst step
      have nonempty := accounted.filled fd (.batch (some .epollout)) (by rw [before]; simp) rfl
      have isOpen := accounted.opened fd (by rw [before]; simp)
      rw [serving_closed closed]
      rcases HttpConn.write_munmap nonempty write with
        ⟨-, -, -, more⟩ | ⟨last, munmap, -⟩
      · rw [more] at result
        cases result
      · rw [maps, munmap]
        exact accounted.ended isOpen (ends fd (by rw [writing, reported]; rfl) last)

/-! ## All mappings -/

/-- No mapping is made or released. -/
structure SameMaps (s t : Server) : Prop where
  mapped : t.mapped = s.mapped
  unmapped : t.unmapped = s.unmapped
  mappings : t.mappings = s.mappings

theorem SameMaps.trans {u : Server} (first : SameMaps s t) (second : SameMaps t u) :
    SameMaps s u :=
  ⟨second.mapped.trans first.mapped, second.unmapped.trans first.unmapped,
    second.mappings.trans first.mappings⟩

theorem setUser_sameMaps (s : Server) (request : Fd) (c : HttpConn) :
    SameMaps s (s.setUser request c) :=
  ⟨rfl, rfl, rfl⟩

theorem setWorker_sameMaps (s : Server) (worker : Nat) (state : Worker) :
    SameMaps s (s.setWorker worker state) :=
  ⟨rfl, rfl, rfl⟩

theorem handled_sameMaps (s : Server) (batch : List Report) :
    SameMaps s { s with batch := batch } :=
  ⟨rfl, rfl, rfl⟩

theorem closeConn_sameMaps (s : Server) (request : Fd) : SameMaps s (s.closeConn request) := by
  unfold closeConn
  dsimp only
  split <;> exact ⟨rfl, rfl, rfl⟩

theorem rearm_sameMaps (s : Server) (fd : Fd) (event : Option EpollEvent) :
    SameMaps s (s.rearm fd event) := by
  cases event with
  | none => exact ⟨rfl, rfl, rfl⟩
  | some event =>
      unfold rearm modfd
      dsimp only
      split <;> exact ⟨rfl, rfl, rfl⟩

theorem accept_sameMaps {connfd : Fd} (step : s.accept connfd = some t) : SameMaps s t := by
  rcases accept_spec step with ⟨rfl, -⟩ | ⟨-, -, -, -, rfl⟩ <;> exact ⟨rfl, rfl, rfl⟩

theorem readUser_sameMaps {request : Fd} {answers : List Recv}
    (step : s.readUser request answers = some t) : SameMaps s t := by
  obtain ⟨⟨more, c⟩, -, rfl⟩ := Option.map_eq_some_iff.mp step
  cases more with
  | true =>
      change SameMaps s ((s.setUser request c).append request)
      unfold append
      split <;> exact ⟨rfl, rfl, rfl⟩
  | false => exact (setUser_sameMaps s request c).trans (closeConn_sameMaps _ request)

/-- `write` releases what it passes to `munmap`. -/
theorem writeUser_maps {request : Fd} {answers : List Send}
    (step : s.writeUser request answers = some t) :
    ∃ written, (s.users request).write answers = some written ∧
      SameMaps (s.recordUnmap request written.munmap) t := by
  obtain ⟨written, wrote, rfl⟩ := Option.map_eq_some_iff.mp step
  refine ⟨written, wrote, ?_⟩
  have stored : SameMaps (s.recordUnmap request written.munmap)
      ((s.setUser request written.conn).recordUnmap request written.munmap) := by
    cases written.munmap <;> exact ⟨rfl, rfl, rfl⟩
  have rearmed := stored.trans (rearm_sameMaps _ written.conn.sockfd written.interest)
  dsimp only
  split
  · exact rearmed
  · exact rearmed.trans (closeConn_sameMaps _ _)

theorem processUser_maps (s : Server) (worker : Nat) (request : Fd) (fs : FileSystem) :
    ∃ code c, SameMaps (s.recordMap request code c) (s.processUser worker request fs) := by
  unfold processUser
  cases (s.users request).processRead fs with
  | mk code c =>
      refine ⟨code, c, ?_⟩
      dsimp only
      split
      · exact ⟨rfl, rfl, rfl⟩
      · split
        · exact ⟨rfl, rfl, rfl⟩
        · exact ((setUser_sameMaps _ request _).trans (closeConn_sameMaps _ request)).trans
            (setWorker_sameMaps _ worker _)

/-- What a step does to the mappings. -/
inductive MapStep (s : Server) : ServerEvent → Server → Prop
  | same {event : ServerEvent} {t : Server} (same : SameMaps s t) : MapStep s event t
  | maps {event : ServerEvent} {t : Server} {request : Fd} {code : HttpCode} {c : HttpConn}
      (same : SameMaps (s.recordMap request code c) t) : MapStep s event t
  | unmaps {t : Server} {request : Fd} {batch : List Report} {answers : List Send}
      {written : Written} (reported : s.batch = .client request false (some .epollout) :: batch)
      (wrote : (s.users request).write answers = some written)
      (same : SameMaps (s.recordUnmap request written.munmap) t) : MapStep s (.write answers) t

theorem next_maps {event : ServerEvent} (step : s.next event = some t) : MapStep s event t := by
  cases event with
  | wait batch =>
      simp only [next, Option.ite_none_right_eq_some, Option.some.injEq] at step
      obtain ⟨-, rfl⟩ := step
      exact .same ⟨rfl, rfl, rfl⟩
  | accept connfd =>
      simp only [next] at step
      split at step
      · exact .same ((handled_sameMaps s _).trans
          (accept_sameMaps (Option.ite_none_left_eq_some.mp step).2))
      · contradiction
  | hangup =>
      simp only [next] at step
      split at step
      · simp only [Option.ite_none_left_eq_some, Option.some.injEq] at step
        obtain ⟨-, rfl⟩ := step
        exact .same ((handled_sameMaps s _).trans (closeConn_sameMaps _ _))
      · contradiction
  | read answers =>
      simp only [next] at step
      split at step
      · exact .same ((handled_sameMaps s _).trans
          (readUser_sameMaps (Option.ite_none_left_eq_some.mp step).2))
      · contradiction
  | post =>
      simp only [next, Option.ite_none_right_eq_some, Option.some.injEq] at step
      obtain ⟨-, rfl⟩ := step
      exact .same ⟨rfl, rfl, rfl⟩
  | write answers =>
      simp only [next] at step
      split at step
      · rename_i sockfd batch reported
        obtain ⟨written, wrote, same⟩ := writeUser_maps (Option.ite_none_left_eq_some.mp step).2
        refine .unmaps reported wrote (SameMaps.trans ?_ same)
        cases written.munmap <;> exact ⟨rfl, rfl, rfl⟩
      · contradiction
  | wake worker =>
      simp only [next, Option.ite_none_right_eq_some, Option.some.injEq] at step
      obtain ⟨-, rfl⟩ := step
      exact .same ⟨rfl, rfl, rfl⟩
  | take worker =>
      simp only [next, Option.ite_none_right_eq_some, Option.some.injEq] at step
      obtain ⟨-, rfl⟩ := step
      unfold takeRequest
      split <;> exact .same ⟨rfl, rfl, rfl⟩
  | process worker fs =>
      simp only [next] at step
      split at step
      · rename_i request running
        obtain rfl := Option.some.inj step
        obtain ⟨code, c, same⟩ := processUser_maps s worker request fs
        exact .maps same
      · contradiction
  | arm worker =>
      simp only [next] at step
      split at step
      · rename_i request interest running
        obtain rfl := Option.some.inj step
        exact .same ((rearm_sameMaps s _ (some interest)).trans (setWorker_sameMaps _ worker _))
      · contradiction

/-! ## Released mappings along a run -/

theorem SameMaps.balanced (same : SameMaps s t) (balanced : s.Balanced) : t.Balanced := by
  unfold Balanced at balanced ⊢
  rw [same.mapped, same.unmapped, same.mappings]
  exact balanced

theorem recordMap_balanced (balanced : s.Balanced) (request : Fd) (code : HttpCode)
    (c : HttpConn) : (s.recordMap request code c).Balanced := by
  unfold recordMap
  split
  · exact (balanced.cons _).trans List.perm_middle.symm
  · exact balanced

theorem recordUnmap_balanced (balanced : s.Balanced) {request : Fd} {munmap : Munmap}
    (mem : (request, munmap) ∈ s.mappings) : (s.recordUnmap request (some munmap)).Balanced := by
  have split := (List.perm_cons_erase mem).map Prod.snd
  have moved : (s.unmapped ++ s.mappings.map Prod.snd).Perm
      (s.unmapped ++ munmap :: (s.mappings.erase (request, munmap)).map Prod.snd) :=
    split.append_left _
  exact (balanced.trans moved).trans List.perm_middle

/-- The mapping of a response that is being sent is there. -/
theorem Accounted.mem_mappings (accounted : Accounted s) (opened : s.opened fd = true)
    (serves : (s.users fd).ServesFile) : (fd, (s.users fd).mapping) ∈ s.mappings := by
  rw [mem_mapsOf, accounted.maps fd, serving, if_pos ⟨opened, serves⟩]
  exact List.mem_singleton_self _

theorem Accounted.next_balanced {event : ServerEvent} (accounted : Accounted s)
    (ends : s.EndsMapping event) (step : s.next event = some t) : t.Balanced := by
  cases next_maps step with
  | same same => exact same.balanced accounted.balanced
  | maps same => exact same.balanced (recordMap_balanced accounted.balanced _ _ _)
  | @unmaps t request batch answers written reported wrote same =>
      refine same.balanced ?_
      obtain ⟨before, -, -⟩ := accounted.toPlaced.handled reported
      have nonempty := accounted.filled request (.batch (some .epollout)) (by rw [before]; simp) rfl
      have opened := accounted.opened request (by rw [before]; simp)
      rcases HttpConn.write_munmap nonempty wrote with ⟨-, noMunmap, -⟩ | ⟨last, munmap, -⟩
      · rw [noMunmap]
        exact accounted.balanced
      · rw [munmap]
        rcases ends request (by rw [writing, reported]; rfl) last with null | serves
        · rw [HttpConn.unmap_null null]
          exact accounted.balanced
        · rw [HttpConn.unmap_some serves.2.2.1]
          exact recordUnmap_balanced accounted.balanced (accounted.mem_mappings opened serves)

theorem next_accounted : Preserves next EndsMapping Accounted := by
  intro s event t accounted ends step
  have lives := next_life accounted.toPlaced step
  exact {
    toPlaced := next_placed accounted.toPlaced step
    filled := fun fd _ mem => (lives fd).filled accounted mem
    maps := fun fd => (lives fd).maps accounted ends
    balanced := accounted.next_balanced ends step }

theorem start_accounted (users : Fd → HttpConn) (threadNumber maxRequests : Nat) :
    Accounted (start users threadNumber maxRequests) where
  toPlaced := start_placed users threadNumber maxRequests
  filled fd place mem output := by
    have isOpen := (start_placed users threadNumber maxRequests).opened fd (List.ne_nil_of_mem mem)
    cases isOpen
  maps fd := (serving_closed (by rfl)).symm
  balanced := List.Perm.nil

theorem Accounted.released (accounted : Accounted s) : Released s where
  balanced := accounted.balanced
  owner entry mem := by
    rw [mem_mapsOf, accounted.maps] at mem
    unfold serving at mem
    split at mem
    · rename_i serves
      have entry_eq := List.mem_singleton.mp mem
      exact ⟨serves.1, congrArg Prod.snd entry_eq⟩
    · cases mem

theorem hangup_not_released (accounted : Accounted s) (leaks : ¬ s.EndsMapping .hangup)
    (step : s.next .hangup = some t) : ¬ Released t := by
  simp only [next] at step
  split at step
  · rename_i sockfd ready batch reported
    simp only [Option.ite_none_left_eq_some, Option.some.injEq] at step
    obtain ⟨-, rfl⟩ := step
    obtain ⟨before, vacant, -⟩ := accounted.toPlaced.handled reported
    have opened := accounted.opened sockfd (by rw [before]; simp)
    obtain ⟨sockfd_eq, nonneg⟩ := accounted.sockfd sockfd opened
    have serves : (s.users sockfd).ServesFile := by
      by_contra serves
      refine leaks fun fd mem => ?_
      rw [hangingUp, reported, Option.mem_some_iff] at mem
      exact mem ▸ serves
    intro released
    have closed := (closeConn_life (s := { s with batch := batch }) sockfd_eq nonneg vacant).1
    have mem : (sockfd, (s.users sockfd).mapping) ∈
        ({ s with batch := batch }.closeConn sockfd).mappings := by
      rw [(closeConn_sameMaps { s with batch := batch } sockfd).mappings]
      exact accounted.mem_mappings opened serves
    have isOpen := (released.owner _ mem).1
    rw [closed] at isOpen
    cases isOpen
  · contradiction

/-- A call of `munmap` for something that is not mapped. -/
theorem write_not_released {answers : List Send} (accounted : Accounted s)
    (wrong : ¬ s.EndsMapping (.write answers)) (step : s.next (.write answers) = some t) :
    ¬ Released t := by
  simp only [next] at step
  split at step
  · rename_i sockfd batch reported
    obtain ⟨before, -, -⟩ := accounted.toPlaced.handled reported
    have nonempty := accounted.filled sockfd (.batch (some .epollout)) (by rw [before]; simp) rfl
    obtain ⟨last, address, serves⟩ : answers.getLast? ≠ some .again ∧
        (s.users sockfd).fileAddress ≠ 0 ∧ ¬ (s.users sockfd).ServesFile := by
      by_contra right
      refine wrong fun fd mem last => ?_
      rw [writing, reported, Option.mem_some_iff] at mem
      subst mem
      by_contra neither
      rw [not_or] at neither
      exact right ⟨last, neither⟩
    obtain ⟨written, wrote, same⟩ := writeUser_maps (Option.ite_none_left_eq_some.mp step).2
    have munmap : written.munmap = some (s.users sockfd).mapping := by
      rcases HttpConn.write_munmap nonempty wrote with ⟨again, -⟩ | ⟨-, munmap, -⟩
      · exact absurd again last
      · exact munmap.trans (HttpConn.unmap_some address)
    have absent : (sockfd, (s.users sockfd).mapping) ∉ s.mappings := by
      rw [mem_mapsOf, accounted.maps, serving, if_neg fun both => serves both.2]
      exact List.not_mem_nil
    rw [munmap] at same
    intro released
    have after := released.balanced.length_eq
    rw [same.mapped, same.unmapped, same.mappings] at after
    change s.mapped.length = ((s.users sockfd).mapping :: s.unmapped ++
      (s.mappings.erase (sockfd, (s.users sockfd).mapping)).map Prod.snd).length at after
    rw [List.erase_of_not_mem absent] at after
    have balanced := accounted.balanced.length_eq
    simp only [List.length_append, List.length_cons, List.length_map] at after balanced
    omega
  · contradiction

/-- In a run, mappings and calls of `munmap` always match if and only if no
connection hangs up in the middle of a mapped response, and no response ends with
a file address that is not its own. -/
theorem released_along_iff {users : Fd → HttpConn} {threadNumber maxRequests : Nat}
    {events : List ServerEvent}
    (finished : run next (start users threadNumber maxRequests) events = some t) :
    Along next Released (start users threadNumber maxRequests) events ↔
      Meets next EndsMapping (start users threadNumber maxRequests) events := by
  refine along_iff_meets next_accounted (fun _ => Accounted.released) ?_ (start_accounted _ _ _)
    finished
  intro s event t accounted wrong step
  cases event with
  | hangup => exact hangup_not_released accounted wrong step
  | write answers => exact write_not_released accounted wrong step
  | wait | accept | read | post | wake | take | process | arm => exact absurd trivial wrong

/-- In a run, mappings and calls of `munmap` always match, whatever an undefined step
overwrites, if and only if each step meets both guards. -/
theorem released_always_iff {users : Fd → HttpConn} {threadNumber maxRequests : Nat}
    {events : List ServerEvent}
    (finished : run next (start users threadNumber maxRequests) events = some t) :
    Always next Defined Released (start users threadNumber maxRequests) events ↔
      Meets next (fun s event => s.EndsMapping event ∧ s.ContentFits event)
        (start users threadNumber maxRequests) events := by
  have fails : ¬ Released { start users 0 0 with mapped := [⟨0, 0⟩] } := by
    intro released
    exact List.not_perm_cons_nil released.balanced
  exact always_iff fails (released_along_iff finished) finished

end Maps

/-! ## A mapped response -/

/-- A file system with a single file of three bytes. -/
def oneFile : FileSystem where
  stat := fun path => if path = ascii "htdocs/a" then some ⟨true, false, 3⟩ else none
  mmap := fun path => if path = ascii "htdocs/a" then some 4096 else none
  mapped := by
    intro path address mem
    rw [Option.mem_def, Option.ite_none_right_eq_some] at mem
    cases mem.2
    decide

/-- A client asks for the file, and becomes writable. -/
def asksFile : List ServerEvent :=
  [.wait [.listen], .accept 5, .wait [.client 5 false (some .epollin)],
    .read [.data (ascii "GET /a HTTP/1.1\r\n\r\n"), .again], .post, .wake 0, .take 0,
    .process 0 oneFile, .arm 0]

/-- The response is sent. -/
def getsFile : List ServerEvent :=
  asksFile ++ [.wait [.client 5 false (some .epollout)], .write [.taken 60]]

theorem released_always_getsFile :
    Always next Defined Released (start (fun _ => zeroConn) THREAD_NUMBER MAX_REQUESTS)
      getsFile :=
  (released_always_iff (Option.some_get (by decide +kernel :
    (run next (start (fun _ => zeroConn) THREAD_NUMBER MAX_REQUESTS) getsFile).isSome =
      true)).symm).mpr (by decide +kernel)

/-- The client leaves before the response is sent. -/
def leavesFile : List ServerEvent :=
  asksFile ++ [.wait [.client 5 true none], .hangup]

/-- The mapping stays when the connection is closed. -/
theorem leavesFile_not_released : ∃ t,
    run next (start (fun _ => zeroConn) THREAD_NUMBER MAX_REQUESTS) leavesFile = some t ∧
      ¬ Released t := by
  have leaks : (run next (start (fun _ => zeroConn) THREAD_NUMBER MAX_REQUESTS) leavesFile).any
      (fun t => t.mappings.any fun entry => !t.opened entry.1) = true := by
    decide +kernel
  obtain ⟨t, finished, leak⟩ := (Option.any_eq_true _ _).mp leaks
  refine ⟨t, finished, fun released => ?_⟩
  obtain ⟨entry, mem, closed⟩ := List.any_eq_true.mp leak
  rw [(released.owner entry mem).1] at closed
  cases closed

end Server

end NetPractice.Http
