import Mathlib
import Mastermind.Platform.Utf16

/-!
# Reading a growing log in pages

The page of a server's log asks for the rows that follow the last one it has (`loadLogs`), and
`LogsService.list` answers with the first of those that are no older than it, in the order of their
creation times and ids. Rows of one creation time are asked for again as long as the cursor is one
of them, so none is ever passed over (`Follows`, `Follows.step`). They also take up the page: when
more of them come before a row than the page holds, no poll gets to that row, and
`polling_progress_iff` says that this is the only way in which the log stops.

The argument for progress is on two polls (`Follows.quiet_poll`): if neither brings anything new,
then the cursor of the second and its whole page are rows of one creation time before the row that
waits.
-/

namespace Mastermind.Logs.Polling

variable {LogId : Type}

/-- `model ServerLog`. -/
structure ServerLog (LogId : Type) where
  id : LogId
  orgId : ℕ
  serverInstanceId : ℕ
  content : Text
  createdAt : ℕ
  deriving DecidableEq

/-- The rows of the table, in the order in which they were inserted. -/
structure ServerLogs (LogId : Type) where
  rows : List (ServerLog LogId)
  nodup : (rows.map ServerLog.id).Nodup

/-- The organization, and perhaps the server, whose rows are asked for. -/
structure Scope where
  orgId : ℕ
  serverInstanceId : Option ℕ

/-- `{ orgId, ...(serverInstanceId ? { serverInstanceId } : {}) }`. -/
def Scope.admits (scope : Scope) (row : ServerLog LogId) : Bool :=
  row.orgId == scope.orgId && scope.serverInstanceId.all (· == row.serverInstanceId)

/-- The rows that a query can see. -/
def ServerLogs.within (table : ServerLogs LogId) (scope : Scope) : List (ServerLog LogId) :=
  table.rows.filter scope.admits

/-- The insertion of a row with an id of its own. -/
def ServerLogs.append (table : ServerLogs LogId) (row : ServerLog LogId)
    (fresh : row.id ∉ table.rows.map ServerLog.id) : ServerLogs LogId where
  rows := table.rows ++ [row]
  nodup := by
    rw [List.map_append, List.map_singleton]
    exact table.nodup.append (List.nodup_singleton _) (by simpa using fresh)

/-- `Math.min(Math.max(limit || 250, 1), 1000)`, for the default 250. -/
def pageSize (limit : Option ℤ) : ℕ :=
  let wanted := limit.getD 250
  (min (max (if wanted = 0 then 250 else wanted) 1) 1000).toNat

variable [LinearOrder LogId]

/-- The order `[{ createdAt: 'asc' }, { id: 'asc' }]`. -/
def ServerLog.place (row : ServerLog LogId) : ℕ ×ₗ LogId := toLex (row.createdAt, row.id)

/-- The row with the id `afterId`. -/
def ServerLogs.findFirst (table : ServerLogs LogId) (scope : Scope) (afterId : LogId) :
    Option (ServerLog LogId) :=
  (table.within scope).find? fun row => row.id == afterId

/-- The rows that are no older than `cursor`, but the one with the id `afterId`, in order. -/
def ServerLogs.following (table : ServerLogs LogId) (scope : Scope) (cursor : ServerLog LogId)
    (afterId : LogId) : List (ServerLog LogId) :=
  ((table.within scope).filter fun row =>
    decide (cursor.createdAt ≤ row.createdAt) && row.id != afterId).mergeSort
      fun a b => decide (a.place ≤ b.place)

/-- The newest rows, newest last. The database is free in the order of rows of one time. -/
def ServerLogs.Newest (table : ServerLogs LogId) (scope : Scope) (take : ℕ)
    (reply : List (ServerLog LogId)) : Prop :=
  ∃ listing : List (ServerLog LogId), listing.Perm (table.within scope) ∧
    listing.Pairwise (fun a b => b.createdAt ≤ a.createdAt) ∧ reply = (listing.take take).reverse

/-- `list`: `reply` is one of the answers that it may give. -/
def ServerLogs.Lists (table : ServerLogs LogId) (scope : Scope) (limit : Option ℤ)
    (afterId : Option LogId) (reply : List (ServerLog LogId)) : Prop :=
  match afterId with
  | none => table.Newest scope (pageSize limit) reply
  | some id =>
    match table.findFirst scope id with
    | none => table.Newest scope (pageSize limit) reply
    | some cursor => reply = (table.following scope cursor id).take (pageSize limit)

/-- What the page keeps: the id of the newest row that it got, and the rows that it shows. -/
structure Client (LogId : Type) where
  latestLogId : Option LogId
  logs : List (ServerLog LogId)

/-- `loadLogs`, once the reply is there. -/
def Client.loadLogs (client : Client LogId) (initial : Bool) (rows : List (ServerLog LogId)) :
    Client LogId :=
  match rows.getLast? with
  | some last =>
    { latestLogId := some last.id
      logs :=
        if initial then rows
        else
          let known := client.logs.map ServerLog.id
          let all := client.logs ++ rows.filter fun row => row.id ∉ known
          all.drop (all.length - 500) }
  | none => if initial then { client with logs := [] } else client

/-- A client and the table it reads, with every row that it has been sent. -/
structure Session (LogId : Type) where
  table : ServerLogs LogId
  client : Client LogId
  sent : List (ServerLog LogId)

/-- The client gets a reply. -/
def Session.receive (s : Session LogId) (initial : Bool) (reply : List (ServerLog LogId)) :
    Session LogId :=
  { s with client := s.client.loadLogs initial reply, sent := s.sent ++ reply }

/-- The session after the first poll. -/
def Session.start (table : ServerLogs LogId) (first : List (ServerLog LogId)) : Session LogId :=
  Session.receive ⟨table, ⟨none, []⟩, []⟩ true first

/-- What happens to a session: the server logs a row, or the client polls. -/
inductive Event (LogId : Type) where
  | append (row : ServerLog LogId)
  | poll

/-- An event. A row of the scope is no older than those that are there. -/
inductive Step (scope : Scope) (limit : Option ℤ) :
    Session LogId → Event LogId → Session LogId → Prop
  | append {s : Session LogId} {row : ServerLog LogId}
      (fresh : row.id ∉ s.table.rows.map ServerLog.id)
      (newest : scope.admits row → ∀ r ∈ s.table.within scope, r.createdAt ≤ row.createdAt) :
      Step scope limit s (.append row) { s with table := s.table.append row fresh }
  | poll {s : Session LogId} {reply : List (ServerLog LogId)}
      (answer : s.table.Lists scope limit s.client.latestLogId reply) :
      Step scope limit s .poll (s.receive false reply)

/-- The events of a session, one after the other. -/
inductive Run (scope : Scope) (limit : Option ℤ) :
    Session LogId → List (Event LogId) → Session LogId → Prop
  | nil {s : Session LogId} : Run scope limit s [] s
  | cons {s t u : Session LogId} {e : Event LogId} {events : List (Event LogId)}
      (step : Step scope limit s e t) (rest : Run scope limit t events u) :
      Run scope limit s (e :: events) u

/-- The number of polls among the events. -/
def polls (events : List (Event LogId)) : ℕ := events.countP fun e => e matches .poll

/-- The row of the client's cursor. -/
def Session.cursor (scope : Scope) (s : Session LogId) : Option (ServerLog LogId) :=
  s.client.latestLogId.bind (s.table.findFirst scope)

/-- The row was not sent yet, and is no older than the cursor. -/
def Pending (scope : Scope) (s : Session LogId) (row : ServerLog LogId) : Prop :=
  row ∈ s.table.within scope ∧ row ∉ s.sent ∧
    ∀ cursor, s.cursor scope = some cursor → cursor.createdAt ≤ row.createdAt

/-- The rows of the creation time of `cursor` that come before `row`. -/
def ServerLogs.tied (table : ServerLogs LogId) (scope : Scope) (cursor row : ServerLog LogId) :
    List (ServerLog LogId) :=
  (table.within scope).filter fun r =>
    r.createdAt == cursor.createdAt && decide (r.place < row.place)

/-- The number of the rows of the cursor's creation time that come before `row`. -/
def Session.tiedBefore (scope : Scope) (s : Session LogId) (row : ServerLog LogId) : ℕ :=
  match s.cursor scope with
  | some cursor => (s.table.tied scope cursor row).length
  | none => 0

section Pages

omit [LinearOrder LogId] in
theorem mem_within {table : ServerLogs LogId} {scope : Scope} {row : ServerLog LogId} :
    row ∈ table.within scope ↔ row ∈ table.rows ∧ scope.admits row = true :=
  List.mem_filter

omit [LinearOrder LogId] in
/-- Two rows of a table with one id are one row. -/
theorem eq_of_id_eq {table : ServerLogs LogId} {scope : Scope} {a b : ServerLog LogId}
    (ha : a ∈ table.within scope) (hb : b ∈ table.within scope) (h : a.id = b.id) : a = b :=
  List.inj_on_of_nodup_map table.nodup (mem_within.mp ha).1 (mem_within.mp hb).1 h

omit [LinearOrder LogId] in
theorem ServerLogs.nodup_within (table : ServerLogs LogId) (scope : Scope) :
    (table.within scope).Nodup :=
  (List.Nodup.of_map _ table.nodup).filter _

theorem findFirst_eq {table : ServerLogs LogId} {scope : Scope} {row : ServerLog LogId}
    (h : row ∈ table.within scope) : table.findFirst scope row.id = some row := by
  cases hfound : table.findFirst scope row.id with
  | none =>
    have := List.find?_eq_none.mp hfound row h
    simp at this
  | some found =>
    have hmem := List.mem_of_find?_eq_some hfound
    have hid : found.id = row.id := by simpa using List.find?_some hfound
    rw [eq_of_id_eq hmem h hid]

theorem mem_tied {table : ServerLogs LogId} {scope : Scope} {cursor row r : ServerLog LogId} :
    r ∈ table.tied scope cursor row ↔
      r ∈ table.within scope ∧ r.createdAt = cursor.createdAt ∧ r.place < row.place := by
  simp [ServerLogs.tied, List.mem_filter]

theorem place_le_iff {a b : ServerLog LogId} :
    a.place ≤ b.place ↔ a.createdAt < b.createdAt ∨ a.createdAt = b.createdAt ∧ a.id ≤ b.id :=
  Prod.Lex.toLex_le_toLex

theorem createdAt_le_of_place_le {a b : ServerLog LogId} (h : a.place ≤ b.place) :
    a.createdAt ≤ b.createdAt := by
  rcases place_le_iff.mp h with h | ⟨h, -⟩
  · exact h.le
  · exact h.le

/-- An element of a sorted list is on its first page, or the page is full of elements before it. -/
theorem mem_take_or_full {α : Type} {r : α → α → Prop} {l : List α} (h : l.Pairwise r) (k : ℕ)
    {x : α} (hx : x ∈ l) :
    x ∈ l.take k ∨ (l.take k).length = k ∧ ∀ y ∈ l.take k, r y x := by
  rw [← List.take_append_drop k l, List.mem_append] at hx
  refine hx.imp_right fun hdrop => ⟨?_, fun y hy => ?_⟩
  · have hlong : k < l.length := by
      by_contra hshort
      rw [List.drop_eq_nil_of_le (by omega)] at hdrop
      exact absurd hdrop List.not_mem_nil
    rw [List.length_take]
    omega
  · rw [← List.take_append_drop k l] at h
    exact (List.pairwise_append.mp h).2.2 y hy x hdrop

/-- What a reply is for a client whose cursor is `cursor`: the first rows that are no older. -/
structure Page (scope : Scope) (limit : Option ℤ) (table : ServerLogs LogId)
    (cursor : ServerLog LogId) (reply : List (ServerLog LogId)) : Prop where
  sorted : reply.Pairwise fun a b => a.place < b.place
  following : ∀ row ∈ reply,
    row ∈ table.within scope ∧ cursor.createdAt ≤ row.createdAt ∧ row ≠ cursor
  length_le : reply.length ≤ pageSize limit
  full : ∀ row ∈ table.within scope, cursor.createdAt ≤ row.createdAt → row ≠ cursor →
    row ∉ reply → reply.length = pageSize limit ∧ ∀ r ∈ reply, r.place < row.place

theorem mem_following {table : ServerLogs LogId} {scope : Scope} {cursor row : ServerLog LogId}
    (hcursor : cursor ∈ table.within scope) :
    row ∈ table.following scope cursor cursor.id ↔
      row ∈ table.within scope ∧ cursor.createdAt ≤ row.createdAt ∧ row ≠ cursor := by
  rw [ServerLogs.following, List.mem_mergeSort, List.mem_filter]
  refine and_congr_right fun hrow => ?_
  rw [Bool.and_eq_true, decide_eq_true_eq, bne_iff_ne]
  refine and_congr_right fun _ => not_congr ⟨eq_of_id_eq hrow hcursor, fun h => by rw [h]⟩

/-- The rows that follow a cursor come in the strict order of their places. -/
theorem following_sorted (table : ServerLogs LogId) (scope : Scope) (cursor : ServerLog LogId)
    (afterId : LogId) :
    (table.following scope cursor afterId).Pairwise fun a b => a.place < b.place := by
  set rows := (table.within scope).filter fun row =>
    decide (cursor.createdAt ≤ row.createdAt) && row.id != afterId with hrows
  have hsorted := @List.pairwise_mergeSort _
    (fun a b : ServerLog LogId => decide (a.place ≤ b.place))
    (fun a b c hab hbc => by
      simp only [decide_eq_true_eq] at hab hbc ⊢
      exact hab.trans hbc)
    (fun a b => by simpa using le_total a.place b.place) rows
  have hids : ((table.following scope cursor afterId).map ServerLog.id).Nodup := by
    have hsub : (rows.map ServerLog.id).Nodup :=
      table.nodup.sublist ((List.filter_sublist.trans List.filter_sublist).map _)
    exact ((List.mergeSort_perm _ _).map ServerLog.id).nodup_iff.mpr hsub
  -- two rows with one place would have one id
  have hdistinct := List.pairwise_map.mp hids
  refine (hsorted.and hdistinct).imp ?_
  rintro a b ⟨hle, hne⟩
  have hle : a.place ≤ b.place := by simpa using hle
  refine lt_of_le_of_ne hle fun heq => hne ?_
  exact congrArg (fun place => (ofLex place).2) heq

/-- A poll of a client whose cursor is a row of the table gets a page. -/
theorem page_of_lists {table : ServerLogs LogId} {scope : Scope} {limit : Option ℤ}
    {cursor : ServerLog LogId} {reply : List (ServerLog LogId)}
    (hcursor : cursor ∈ table.within scope)
    (answer : table.Lists scope limit (some cursor.id) reply) :
    Page scope limit table cursor reply := by
  have hreply : reply = (table.following scope cursor cursor.id).take (pageSize limit) := by
    simpa [ServerLogs.Lists, findFirst_eq hcursor] using answer
  have hsorted := following_sorted table scope cursor cursor.id
  refine ⟨?_, fun row hrow => ?_, ?_, fun row hrow hle hne hnot => ?_⟩
  · rw [hreply]
    exact hsorted.sublist (List.take_sublist _ _)
  · rw [hreply] at hrow
    exact (mem_following hcursor).mp (List.mem_of_mem_take hrow)
  · rw [hreply]
    exact List.length_take_le _ _
  · have hmem := (mem_following hcursor).mpr ⟨hrow, hle, hne⟩
    rw [hreply] at hnot ⊢
    exact (mem_take_or_full hsorted _ hmem).resolve_left hnot

/-- A page neither repeats a row nor has the cursor. -/
theorem Page.cons_nodup {table : ServerLogs LogId} {scope : Scope} {limit : Option ℤ}
    {cursor : ServerLog LogId} {reply : List (ServerLog LogId)}
    (hpage : Page scope limit table cursor reply) : (cursor :: reply).Nodup := by
  have hself : cursor ∉ reply := fun hmem => (hpage.following cursor hmem).2.2 rfl
  have hreply : reply.Nodup :=
    hpage.sorted.imp fun hlt heq => absurd (heq ▸ hlt) (lt_irrefl _)
  exact List.nodup_cons.mpr ⟨hself, hreply⟩

end Pages

section Sessions

variable {scope : Scope} {limit : Option ℤ}

/-- What holds of a session whose client has had a reply: its cursor is the newest row sent. -/
structure Follows (scope : Scope) (s : Session LogId) (cursor : ServerLog LogId) : Prop where
  latest : s.client.latestLogId = some cursor.id
  visible : cursor ∈ s.table.within scope
  sent : cursor ∈ s.sent
  seen : ∀ row ∈ s.sent, row ∈ s.table.within scope ∧ row.createdAt ≤ cursor.createdAt

/-- What a session keeps of an earlier one: a row that waits is sent, or it still waits. -/
structure Advances (scope : Scope) (s t : Session LogId) : Prop where
  visible : s.table.within scope ⊆ t.table.within scope
  sent : s.sent ⊆ t.sent
  kept : ∀ row, Pending scope s row → row ∈ t.sent ∨ Pending scope t row

theorem Advances.refl (s : Session LogId) : Advances scope s s :=
  ⟨fun _ h => h, fun _ h => h, fun _ h => Or.inr h⟩

theorem Advances.trans {s t u : Session LogId} (hst : Advances scope s t)
    (htu : Advances scope t u) : Advances scope s u where
  visible := List.Subset.trans hst.visible htu.visible
  sent := List.Subset.trans hst.sent htu.sent
  kept row hrow := by
    rcases hst.kept row hrow with h | h
    · exact Or.inl (htu.sent h)
    · exact htu.kept row h

namespace Follows

variable {s t : Session LogId} {cursor row : ServerLog LogId} {reply : List (ServerLog LogId)}

theorem cursor_eq (h : Follows scope s cursor) : s.cursor scope = some cursor := by
  rw [Session.cursor, h.latest, Option.bind_some, findFirst_eq h.visible]

theorem pending_iff (h : Follows scope s cursor) :
    Pending scope s row ↔
      row ∈ s.table.within scope ∧ row ∉ s.sent ∧ cursor.createdAt ≤ row.createdAt := by
  simp [Pending, h.cursor_eq]

theorem tiedBefore_eq (h : Follows scope s cursor) (row : ServerLog LogId) :
    s.tiedBefore scope row = (s.table.tied scope cursor row).length := by
  rw [Session.tiedBefore, h.cursor_eq]

/-- The reply to a poll of a client that has had one is a page. -/
theorem page (h : Follows scope s cursor)
    (answer : s.table.Lists scope limit s.client.latestLogId reply) :
    Page scope limit s.table cursor reply := by
  rw [h.latest] at answer
  exact page_of_lists h.visible answer

/-- A row that waits is on the page, or the page is full of rows before it. -/
theorem full (h : Follows scope s cursor) (hpage : Page scope limit s.table cursor reply)
    (hrow : Pending scope s row) :
    row ∈ reply ∨ reply.length = pageSize limit ∧ ∀ r ∈ reply, r.place < row.place := by
  obtain ⟨hmem, hunsent, hle⟩ := h.pending_iff.mp hrow
  by_cases hreply : row ∈ reply
  · exact Or.inl hreply
  · have hne : row ≠ cursor := fun heq => hunsent (heq ▸ h.sent)
    exact Or.inr (hpage.full row hmem hle hne hreply)

/-- The row with which the next poll asks is the last one of the reply, if it has any. -/
theorem receive (h : Follows scope s cursor) (hpage : Page scope limit s.table cursor reply) :
    ∃ next, Follows scope (s.receive false reply) next ∧ (next = cursor ∨ next ∈ reply) ∧
      (reply ≠ [] → next ∈ reply) := by
  cases hlast : reply.getLast? with
  | none =>
    have hnil : reply = [] := List.getLast?_eq_none_iff.mp hlast
    subst hnil
    refine ⟨cursor, ⟨?_, h.visible, ?_, ?_⟩, Or.inl rfl, fun hne => absurd rfl hne⟩
    · simpa [Session.receive, Client.loadLogs] using h.latest
    · simpa [Session.receive] using h.sent
    · simpa [Session.receive] using h.seen
  | some last =>
    have hmem : last ∈ reply := List.mem_of_getLast? hlast
    have hle : ∀ r ∈ reply, r.createdAt ≤ last.createdAt := by
      intro r hr
      have hne : reply ≠ [] := List.ne_nil_of_mem hmem
      have heq : last = reply.getLast hne := by
        rw [List.getLast?_eq_some_getLast hne] at hlast
        exact (Option.some.inj hlast).symm
      have hsorted := hpage.sorted.imp fun hlt => createdAt_le_of_place_le hlt.le
      rw [heq]
      exact hsorted.rel_getLast hr
    have hnewer := (hpage.following last hmem).2.1
    refine ⟨last, ⟨?_, (hpage.following last hmem).1, ?_, fun r hr => ?_⟩, Or.inr hmem,
      fun _ => hmem⟩
    · simp [Session.receive, Client.loadLogs, hlast]
    · exact List.mem_append_right _ hmem
    · rcases List.mem_append.mp hr with hr | hr
      · exact ⟨(h.seen r hr).1, (h.seen r hr).2.trans hnewer⟩
      · exact ⟨(hpage.following r hr).1, hle r hr⟩

/-- A row that is logged changes neither the cursor nor what waits. -/
theorem append (h : Follows scope s cursor) (fresh : row.id ∉ s.table.rows.map ServerLog.id) :
    Follows scope { s with table := s.table.append row fresh } cursor ∧
      Advances scope s { s with table := s.table.append row fresh } := by
  have hvisible : s.table.within scope ⊆ (s.table.append row fresh).within scope := by
    intro r hr
    obtain ⟨hr, hadmits⟩ := mem_within.mp hr
    exact mem_within.mpr ⟨List.mem_append_left _ hr, hadmits⟩
  have ht : Follows scope { s with table := s.table.append row fresh } cursor :=
    ⟨h.latest, hvisible h.visible, h.sent,
      fun r hr => ⟨hvisible (h.seen r hr).1, (h.seen r hr).2⟩⟩
  refine ⟨ht, hvisible, fun _ hr => hr, fun r hr => Or.inr ?_⟩
  obtain ⟨hmem, hunsent, hle⟩ := h.pending_iff.mp hr
  exact ht.pending_iff.mpr ⟨hvisible hmem, hunsent, hle⟩

/-- A page passes over no row that waits. -/
theorem advances (h : Follows scope s cursor) (hpage : Page scope limit s.table cursor reply) :
    ∃ next, Follows scope (s.receive false reply) next ∧
      Advances scope s (s.receive false reply) ∧ (reply ≠ [] → next ∈ reply) := by
  obtain ⟨next, ht, hnext, hlast⟩ := h.receive hpage
  refine ⟨next, ht, ⟨fun _ hr => hr, fun _ hr => List.mem_append_left _ hr, fun r hr => ?_⟩, hlast⟩
  rcases h.full hpage hr with hreply | ⟨-, hbefore⟩
  · exact Or.inl (List.mem_append_right _ hreply)
  · obtain ⟨hmem, hunsent, hle⟩ := h.pending_iff.mp hr
    -- the new cursor is no newer than the row, because everything on the page is before it
    have hnewer : next.createdAt ≤ r.createdAt := by
      rcases hnext with rfl | hnext
      · exact hle
      · exact createdAt_le_of_place_le (hbefore next hnext).le
    have hreply : r ∉ reply := fun hr => lt_irrefl _ (hbefore r hr)
    refine Or.inr (ht.pending_iff.mpr ⟨hmem, fun hsent => ?_, hnewer⟩)
    exact (List.mem_append.mp hsent).elim hunsent hreply

/-- One event keeps a cursor, and passes over no row that waits. -/
theorem step {e : Event LogId} (h : Follows scope s cursor) (hstep : Step scope limit s e t) :
    ∃ next, Follows scope t next ∧ Advances scope s t := by
  cases hstep with
  | append fresh newest => exact ⟨cursor, h.append fresh⟩
  | poll answer =>
    obtain ⟨next, ht, hadv, -⟩ := h.advances (h.page answer)
    exact ⟨next, ht, hadv⟩

/-- A row that is logged waits, as no row that was sent is newer. -/
theorem pending_append (h : Follows scope s cursor)
    (hstep : Step scope limit s (.append row) t) (hadmits : scope.admits row = true) :
    Pending scope t row := by
  cases hstep with
  | append fresh newest =>
    have hvisible : row ∈ (s.table.append row fresh).within scope :=
      mem_within.mpr ⟨List.mem_append_right _ (List.mem_singleton_self _), hadmits⟩
    have hunsent : row ∉ s.sent := by
      intro hsent
      have hrow := (mem_within.mp (h.seen row hsent).1).1
      exact fresh (List.mem_map_of_mem hrow)
    -- the cursor is the same row as before, and the new one is no older than that
    refine ⟨hvisible, hunsent, fun other hother => ?_⟩
    have hcursor : cursor ∈ (s.table.append row fresh).within scope :=
      mem_within.mpr ⟨List.mem_append_left _ (mem_within.mp h.visible).1,
        (mem_within.mp h.visible).2⟩
    have heq : other = cursor := by
      have := findFirst_eq hcursor
      simp only [Session.cursor, h.latest, Option.bind_some, this, Option.some.injEq] at hother
      exact hother.symm
    rw [heq]
    exact newest hadmits cursor h.visible

/-- No event of a run passes over a row that waits, nor over one that is logged in it. -/
theorem run {events : List (Event LogId)} (h : Follows scope s cursor)
    (hrun : Run scope limit s events t) :
    (∃ next, Follows scope t next) ∧ Advances scope s t ∧
      ∀ row, Event.append row ∈ events → scope.admits row = true →
        row ∈ t.sent ∨ Pending scope t row := by
  induction hrun generalizing cursor with
  | nil => exact ⟨⟨cursor, h⟩, Advances.refl _, by simp⟩
  | @cons s u t e events hstep hrest ih =>
    obtain ⟨next, hu, hadv⟩ := h.step hstep
    obtain ⟨hlast, hrest, hlogged⟩ := ih hu
    refine ⟨hlast, hadv.trans hrest, fun row hrow hadmits => ?_⟩
    rcases List.mem_cons.mp hrow with rfl | hrow
    · exact hrest.kept row (h.pending_append hstep hadmits)
    · exact hlogged row hrow hadmits

end Follows

omit [LinearOrder LogId] in
theorem pageSize_pos (limit : Option ℤ) : 0 < pageSize limit := by
  simp only [pageSize]
  omega

omit [LinearOrder LogId] in
theorem polls_replicate (n : ℕ) : polls (List.replicate n (Event.poll : Event LogId)) = n := by
  simp [polls, List.countP_replicate]

/-- The next poll of a run: until it, only the table grows. -/
theorem Follows.exists_poll {s t : Session LogId} {cursor : ServerLog LogId}
    {events : List (Event LogId)} (h : Follows scope s cursor)
    (hrun : Run scope limit s events t) (hpolls : 0 < polls events) :
    ∃ u reply rest, Follows scope u cursor ∧ u.sent = s.sent ∧ Advances scope s u ∧
      Page scope limit u.table cursor reply ∧ Run scope limit (u.receive false reply) rest t ∧
      polls events = polls rest + 1 := by
  induction hrun with
  | nil => simp [polls] at hpolls
  | @cons s u t e events hstep hrest ih =>
    cases hstep with
    | @append row fresh newest =>
      obtain ⟨hu, hadv⟩ := h.append fresh
      have hcount : polls (Event.append row :: events) = polls events := by simp [polls]
      rw [hcount] at hpolls ⊢
      obtain ⟨v, reply, rest, hv, hsent, hlater, hpage, hrun, hrest⟩ := ih hu hpolls
      exact ⟨v, reply, rest, hv, hsent, hadv.trans hlater, hpage, hrun, hrest⟩
    | @poll reply answer =>
      exact ⟨s, reply, events, h, rfl, Advances.refl s, h.page answer, hrest, by simp [polls]⟩

/-- A page with nothing new: it is full, and its rows are as old as the cursor. -/
theorem Follows.quiet {s : Session LogId} {cursor row : ServerLog LogId}
    {reply : List (ServerLog LogId)} (h : Follows scope s cursor)
    (hpage : Page scope limit s.table cursor reply) (hquiet : reply ⊆ s.sent)
    (hrow : Pending scope s row) :
    reply.length = pageSize limit ∧
      ∀ r ∈ reply, r.createdAt = cursor.createdAt ∧ r.place < row.place := by
  have hunsent := (h.pending_iff.mp hrow).2.1
  obtain ⟨hlength, hbefore⟩ := (h.full hpage hrow).resolve_left fun hr => hunsent (hquiet hr)
  refine ⟨hlength, fun r hr => ⟨le_antisymm ?_ ?_, hbefore r hr⟩⟩
  · exact (h.seen r (hquiet hr)).2
  · exact (hpage.following r hr).2.1

/-- Rows that were sent, that are tied with the cursor and come before a row are among those that
are counted. -/
theorem Follows.length_le_tiedBefore {s : Session LogId} {cursor row : ServerLog LogId}
    {rows : List (ServerLog LogId)} (h : Follows scope s cursor) (hnodup : rows.Nodup)
    (hsent : rows ⊆ s.sent)
    (htied : ∀ r ∈ rows, r.createdAt = cursor.createdAt ∧ r.place < row.place) :
    rows.length ≤ s.tiedBefore scope row := by
  have hsub : rows ⊆ s.table.tied scope cursor row := fun r hr =>
    mem_tied.mpr ⟨(h.seen r (hsent hr)).1, htied r hr⟩
  rw [h.tiedBefore_eq]
  exact (hnodup.subperm hsub).length_le

/-- The next poll of a run that brings nothing new: its page is full of rows that are tied with the
cursor and before the row that waits, the next cursor is one of them, and the row still waits. -/
theorem Follows.quiet_poll {s t : Session LogId} {cursor row : ServerLog LogId}
    {events : List (Event LogId)} (h : Follows scope s cursor) (hrow : Pending scope s row)
    (hold : t.sent ⊆ s.sent) (hrun : Run scope limit s events t) (hpolls : 0 < polls events) :
    ∃ next u reply rest, (Follows scope u next ∧ Pending scope u row ∧ s.sent ⊆ u.sent) ∧
      (Run scope limit u rest t ∧ polls events = polls rest + 1) ∧
      next ∈ reply ∧ (cursor :: reply).Nodup ∧ reply.length = pageSize limit ∧
      ∀ r ∈ reply, r ∈ s.sent ∧ r.createdAt = cursor.createdAt ∧ r.place < row.place := by
  have hunsent := (h.pending_iff.mp hrow).2.1
  obtain ⟨u, reply, rest, hu, husent, hsu, hpage, hrest, hcount⟩ := h.exists_poll hrun hpolls
  obtain ⟨next, hu', hadv, hnext⟩ := hu.advances hpage
  have hlater := (hu'.run hrest).2.1
  have hquiet : reply ⊆ s.sent := fun r hr => hold (hlater.sent (List.mem_append_right _ hr))
  have hwaits : Pending scope u row := (hsu.kept row hrow).resolve_left (husent ▸ hunsent)
  obtain ⟨hfull, htied⟩ := hu.quiet hpage (husent ▸ hquiet) hwaits
  have hstill : Pending scope (u.receive false reply) row :=
    (hadv.kept row hwaits).resolve_left fun hr => hunsent (hold (hlater.sent hr))
  have hnext := hnext (List.ne_nil_of_length_pos (hfull ▸ pageSize_pos limit))
  exact ⟨next, u.receive false reply, reply, rest, ⟨hu', hstill, (hsu.trans hadv).sent⟩,
    ⟨hrest, hcount⟩, hnext, hpage.cons_nodup, hfull, fun r hr => ⟨hquiet hr, htied r hr⟩⟩

/-- Two polls bring a new row, if a row waits that a page of its time's rows can reach. -/
theorem Follows.progress {s t : Session LogId} {cursor row : ServerLog LogId}
    {events : List (Event LogId)} (h : Follows scope s cursor) (hrow : Pending scope s row)
    (hreach : s.tiedBefore scope row ≤ pageSize limit) (hrun : Run scope limit s events t)
    (hpolls : 2 ≤ polls events) : ∃ r ∈ t.sent, r ∉ s.sent := by
  -- otherwise neither of the two polls brings anything new
  by_contra hnone
  have hold : t.sent ⊆ s.sent := fun r hr => by_contra fun hnot => hnone ⟨r, hr, hnot⟩
  obtain ⟨next, u, reply, rest, ⟨hu, hwaits, hsu⟩, ⟨hrest, hcount⟩, hnext, -, -, htied⟩ :=
    h.quiet_poll hrow hold hrun (by omega)
  obtain ⟨-, -, reply', -, -, -, -, hnodup, hfull, htied'⟩ :=
    hu.quiet_poll hwaits (List.Subset.trans hold hsu) hrest (by omega)
  -- the second does not ask for the cursor it has from the first: with that row, its page has more
  -- rows that are tied with the first cursor and before `row` than there are
  have hback : u.sent ⊆ s.sent := List.Subset.trans (hu.run hrest).2.1.sent hold
  have hsent : next :: reply' ⊆ s.sent :=
    List.cons_subset.mpr ⟨(htied next hnext).1, fun r hr => hback (htied' r hr).1⟩
  have hbefore : ∀ r ∈ next :: reply', r.createdAt = cursor.createdAt ∧ r.place < row.place := by
    intro r hr
    rcases List.mem_cons.mp hr with rfl | hr
    · exact (htied r hnext).2
    · exact ⟨(htied' r hr).2.1.trans (htied next hnext).2.1, (htied' r hr).2.2⟩
  have hcard := h.length_le_tiedBefore hnodup hsent hbefore
  rw [List.length_cons, hfull] at hcard
  omega

/-- The rows that come before a row and that the client's cursor is tied with fill more than a page,
for every row that waits. -/
def Stalled (scope : Scope) (limit : Option ℤ) (s : Session LogId) : Prop :=
  ∀ row, Pending scope s row → pageSize limit < s.tiedBefore scope row

/-- A client that has stalled gets nothing new. -/
theorem Follows.quiet_of_stalled {s : Session LogId} {cursor : ServerLog LogId}
    {reply : List (ServerLog LogId)} (h : Follows scope s cursor) (hstalled : Stalled scope limit s)
    (hpage : Page scope limit s.table cursor reply) : reply ⊆ s.sent := by
  intro row hrow
  by_contra hunsent
  obtain ⟨hmem, hle, -⟩ := hpage.following row hrow
  have hmany := hstalled row (h.pending_iff.mpr ⟨hmem, hunsent, hle⟩)
  rw [h.tiedBefore_eq] at hmany
  have hnodup : (s.table.tied scope cursor row).Nodup := (s.table.nodup_within scope).filter _
  -- the tied rows before `row`, but the cursor, are on the page, and so is `row`
  have hbefore : row :: (s.table.tied scope cursor row).erase cursor ⊆ reply := by
    intro r hr
    rcases List.mem_cons.mp hr with rfl | hr
    · exact hrow
    · obtain ⟨hne, hr⟩ := hnodup.mem_erase_iff.mp hr
      obtain ⟨hmem, heq, hlt⟩ := mem_tied.mp hr
      by_contra hnot
      exact lt_asymm hlt ((hpage.full r hmem heq.ge hne hnot).2 row hrow)
  have hself : row ∉ (s.table.tied scope cursor row).erase cursor := fun hr =>
    lt_irrefl _ (mem_tied.mp (List.mem_of_mem_erase hr)).2.2
  have hcard := ((List.nodup_cons.mpr ⟨hself, hnodup.erase cursor⟩).subperm hbefore).length_le
  have herase := List.le_length_erase (a := cursor) (l := s.table.tied scope cursor row)
  have hpagelen := hpage.length_le
  rw [List.length_cons] at hcard
  omega

/-- A client that has stalled has stalled after the next poll. -/
theorem Follows.stalled {s : Session LogId} {cursor : ServerLog LogId}
    {reply : List (ServerLog LogId)} (h : Follows scope s cursor) (hstalled : Stalled scope limit s)
    (hpage : Page scope limit s.table cursor reply) :
    Stalled scope limit (s.receive false reply) := by
  have hquiet := h.quiet_of_stalled hstalled hpage
  obtain ⟨next, ht, hnext, -⟩ := h.receive hpage
  intro row hrow
  -- the new cursor is a row that was sent before, and so it has the old one's creation time
  have htime : next.createdAt = cursor.createdAt := by
    rcases hnext with rfl | hnext
    · rfl
    · exact le_antisymm (h.seen next (hquiet hnext)).2 (hpage.following next hnext).2.1
  obtain ⟨hmem, hunsent, hle⟩ := ht.pending_iff.mp hrow
  have hrow : Pending scope s row :=
    h.pending_iff.mpr ⟨hmem, fun hsent => hunsent (List.mem_append_left _ hsent), htime ▸ hle⟩
  have hmany := hstalled row hrow
  rw [h.tiedBefore_eq] at hmany
  have htied : s.table.tied scope next row = s.table.tied scope cursor row := by
    rw [ServerLogs.tied, htime, ServerLogs.tied]
  rw [ht.tiedBefore_eq]
  exact htied ▸ hmany

/-- A client that has stalled can poll any number of times, and gets nothing new. -/
theorem Follows.stalled_run {s : Session LogId} {cursor : ServerLog LogId}
    (h : Follows scope s cursor) (hstalled : Stalled scope limit s) (n : ℕ) :
    ∃ t, Run scope limit s (List.replicate n Event.poll) t ∧ t.sent ⊆ s.sent := by
  induction n generalizing s cursor with
  | zero => exact ⟨s, Run.nil, fun _ hr => hr⟩
  | succ n ih =>
    -- the table does not change, so that the next reply is the next page
    set reply := (s.table.following scope cursor cursor.id).take (pageSize limit) with hreply
    have answer : s.table.Lists scope limit s.client.latestLogId reply := by
      rw [h.latest]
      simp [ServerLogs.Lists, findFirst_eq h.visible, hreply]
    have hpage := h.page answer
    have hquiet := h.quiet_of_stalled hstalled hpage
    have hstill := h.stalled hstalled hpage
    obtain ⟨next, ht, -, -⟩ := h.receive hpage
    obtain ⟨t, hrun, hold⟩ := ih ht hstill
    refine ⟨t, Run.cons (Step.poll answer) hrun, fun r hr => ?_⟩
    exact (List.mem_append.mp (hold hr)).elim id fun hr => hquiet hr

/-- After a first reply that is not empty, the cursor is the newest row. -/
theorem follows_start {table : ServerLogs LogId} {firstLimit : Option ℤ}
    {first : List (ServerLog LogId)} (hfirst : table.Lists scope firstLimit none first)
    (hne : first ≠ []) : ∃ cursor, Follows scope (Session.start table first) cursor := by
  obtain ⟨listing, hperm, hsorted, rfl⟩ := hfirst
  set first := (listing.take (pageSize firstLimit)).reverse with hfirst
  have hmem : ∀ r ∈ first, r ∈ table.within scope := fun r hr =>
    hperm.subset (List.mem_of_mem_take (List.mem_reverse.mp hr))
  have hnewest : first.Pairwise fun a b => a.createdAt ≤ b.createdAt :=
    List.pairwise_reverse.mpr (hsorted.sublist (List.take_sublist _ _))
  have hlast := List.getLast?_eq_some_getLast hne
  refine ⟨first.getLast hne, ?_, hmem _ (List.getLast_mem hne), ?_, fun r hr => ?_⟩
  · simp [Session.start, Session.receive, Client.loadLogs, hlast]
  · exact List.mem_append_right _ (List.getLast_mem hne)
  · have hr : r ∈ first := by simpa [Session.start, Session.receive] using hr
    exact ⟨hmem r hr, hnewest.rel_getLast hr⟩

/-- **A log that is read in pages.** After a first reply that is not empty, every row that is logged
is sent or waits at the cursor, whatever is logged and asked for in which order. The polls go on to
bring new rows exactly if one that waits has no more than a page of the rows of the cursor's
creation time before it. -/
theorem polling_progress_iff {table : ServerLogs LogId} {firstLimit : Option ℤ}
    {first : List (ServerLog LogId)} {events : List (Event LogId)} {s : Session LogId}
    (hfirst : table.Lists scope firstLimit none first) (hne : first ≠ [])
    (hrun : Run scope limit (Session.start table first) events s) :
    (∀ row, Event.append row ∈ events → scope.admits row = true →
      row ∈ s.sent ∨ Pending scope s row) ∧
    ((∃ n, ∀ later t, Run scope limit s later t → n ≤ polls later → ∃ row ∈ t.sent, row ∉ s.sent) ↔
      ∃ row, Pending scope s row ∧ s.tiedBefore scope row ≤ pageSize limit) := by
  obtain ⟨_, hstart⟩ := follows_start hfirst hne
  obtain ⟨⟨cursor, h⟩, -, hlogged⟩ := hstart.run hrun
  refine ⟨hlogged, fun ⟨n, hn⟩ => ?_, fun ⟨row, hrow, hreach⟩ => ?_⟩
  · by_contra hnone
    have hstalled : Stalled scope limit s := fun row hrow =>
      not_le.mp fun hreach => hnone ⟨row, hrow, hreach⟩
    obtain ⟨t, hrun, hold⟩ := h.stalled_run hstalled n
    obtain ⟨row, hrow, hnew⟩ := hn _ t hrun (polls_replicate n).ge
    exact hnew (hold hrow)
  · exact ⟨2, fun later t hrun hpolls => h.progress hrow hreach hrun hpolls⟩

/-- Where no more rows than a page holds share the cursor's creation time, no row is out of
reach. -/
theorem Follows.tiedBefore_le {s : Session LogId} {cursor : ServerLog LogId}
    (h : Follows scope s cursor) (row : ServerLog LogId)
    (hfew : ((s.table.within scope).filter fun r => r.createdAt == cursor.createdAt).length ≤
      pageSize limit) : s.tiedBefore scope row ≤ pageSize limit := by
  rw [h.tiedBefore_eq]
  refine le_trans (List.Sublist.length_le ?_) hfew
  exact List.monotone_filter_right _ fun r hr => (Bool.and_eq_true _ _ ▸ hr).1

end Sessions

section Stall

/-- A row of the server 0, with its id and its creation time. -/
def rowAt (id createdAt : ℕ) : ServerLog ℕ := ⟨id, 0, 0, [], createdAt⟩

/-- The rows of the server 0. -/
def serverZero : Scope := ⟨0, some 0⟩

/-- A table of one row. -/
def oneRow : ServerLogs ℕ := ⟨[rowAt 0 0], by decide⟩

/-- The one row is what the first poll gets. -/
theorem oneRow_lists : oneRow.Lists serverZero (some 1) none [rowAt 0 0] :=
  ⟨[rowAt 0 0], by decide, by simp, by decide⟩

/-- The session after the first poll of the one row, with a newer row logged since. -/
def newerLogged : Session ℕ :=
  { Session.start oneRow [rowAt 0 0] with table := oneRow.append (rowAt 1 1) (by decide) }

/-- A row that is newer than the cursor is sent. -/
theorem polling_progress_iff_newer :
    ∃ n, ∀ later t, Run serverZero (some 1) newerLogged later t → n ≤ polls later →
      ∃ row ∈ t.sent, row ∉ newerLogged.sent := by
  have hstep : Step serverZero (some 1) (Session.start oneRow [rowAt 0 0]) (.append (rowAt 1 1))
      newerLogged := Step.append (by decide) (by decide)
  refine (polling_progress_iff oneRow_lists (by decide) (Run.cons hstep Run.nil)).2.mpr ?_
  exact ⟨rowAt 1 1, ⟨by decide, by decide, by decide⟩, by decide⟩

/-- The client has the second of two rows of one time, and a newer row is there. -/
def betweenTied : Session ℕ where
  table := ⟨[rowAt 0 0, rowAt 1 0, rowAt 2 1], by decide⟩
  client := ⟨some 1, [rowAt 0 0, rowAt 1 0]⟩
  sent := [rowAt 0 0, rowAt 1 0]

/-- With pages of one row, the client goes back and forth between two rows of one time: the row
after them is never sent. -/
theorem polling_stalls :
    oneRow.Lists serverZero (some 1) none [rowAt 0 0] ∧
      Run serverZero (some 1) (Session.start oneRow [rowAt 0 0])
        [.append (rowAt 1 0), .append (rowAt 2 1), .poll] betweenTied ∧
      rowAt 2 1 ∉ betweenTied.sent ∧
      ¬∃ n, ∀ later t, Run serverZero (some 1) betweenTied later t → n ≤ polls later →
        ∃ row ∈ t.sent, row ∉ betweenTied.sent := by
  let table : ServerLogs ℕ := ⟨[rowAt 0 0, rowAt 1 0, rowAt 2 1], by decide⟩
  have answer : table.Lists serverZero (some 1) (some 0) [rowAt 1 0] := by
    show [rowAt 1 0] = (table.following serverZero (rowAt 0 0) 0).take (pageSize (some 1))
    rw [ServerLogs.following, List.mergeSort_of_pairwise (by decide)]
    decide
  have hreceive : Session.receive ⟨table, ⟨some 0, [rowAt 0 0]⟩, [rowAt 0 0]⟩ false [rowAt 1 0] =
      betweenTied := by
    simp [Session.receive, Client.loadLogs, betweenTied, rowAt, table]
  have hpoll : Step serverZero (some 1) ⟨table, ⟨some 0, [rowAt 0 0]⟩, [rowAt 0 0]⟩ .poll
      betweenTied := hreceive ▸ Step.poll answer
  have hfollows : Follows serverZero betweenTied (rowAt 1 0) :=
    ⟨rfl, by decide, by decide, by decide⟩
  have hstalled : Stalled serverZero (some 1) betweenTied := by
    rintro row ⟨hrow, hunsent, -⟩
    have honly : ∀ row ∈ betweenTied.table.within serverZero, row ∉ betweenTied.sent →
        row = rowAt 2 1 := by decide
    rw [honly row hrow hunsent]
    decide
  refine ⟨oneRow_lists, Run.cons (Step.append (by decide) (by decide))
    (Run.cons (Step.append (by decide) (by decide)) (Run.cons hpoll Run.nil)), by decide, ?_⟩
  rintro ⟨n, hn⟩
  obtain ⟨t, hrun, hold⟩ := hfollows.stalled_run hstalled n
  obtain ⟨row, hrow, hnew⟩ := hn _ t hrun (polls_replicate n).ge
  exact hnew (hold hrow)

end Stall

end Mastermind.Logs.Polling
