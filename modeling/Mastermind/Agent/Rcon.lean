import Mathlib

/-!
# The console of Minecraft

`internal/games/minecraft/rcon.go`: the packets of the remote console over a stream. What arrives on
the connection comes in segments, and one `Read` returns what there is of one segment, up to the
length of its buffer. `recv` reads the length and the body of a packet with one `Read` each and does
not look at how much it got; what is missing is left zero.

`recvAll_iff` says which segmentations are read back whatever the numbers of the packets are, and
`exec_iff` of which lengths a response is returned as it was sent.
-/

namespace Mastermind.Agent.Rcon

/-! ## Packets -/

/-- `binary.LittleEndian.PutUint32`, of a number below `2^32`. -/
def putUint32 (v : ℕ) : List UInt8 :=
  [UInt8.ofNat v, UInt8.ofNat (v / 2 ^ 8), UInt8.ofNat (v / 2 ^ 16), UInt8.ofNat (v / 2 ^ 24)]

/-- `binary.LittleEndian.Uint32`. -/
def uint32 (b : List UInt8) : ℕ :=
  (b.getD 0 0).toNat + 2 ^ 8 * (b.getD 1 0).toNat + 2 ^ 16 * (b.getD 2 0).toNat +
    2 ^ 24 * (b.getD 3 0).toNat

/-- `int32`, of a number of 32 bits. -/
def int32 (v : ℕ) : Int32 := (UInt32.ofNat v).toInt32

/-- What `send` is given. -/
structure Packet where
  requestID : Int32
  typ : Int32
  payload : List UInt8
deriving DecidableEq

/-- The part of a packet after its length: `requestId(4) | type(4) | payload\0 | padding(1)`. -/
def Packet.body (p : Packet) : List UInt8 :=
  putUint32 p.requestID.toUInt32.toNat ++ putUint32 p.typ.toUInt32.toNat ++ p.payload ++ [0, 0]

/-- The buffer that `send` writes. -/
def Packet.encode (p : Packet) : List UInt8 := putUint32 (p.payload.length + 10) ++ p.body

/-- A packet that the length check of `recv` admits, without NUL bytes in its payload. -/
structure Packet.Valid (p : Packet) : Prop where
  short : p.payload.length ≤ 4102
  plain : 0 ∉ p.payload

/-! ## Reading -/

/-- What is still to arrive, in segments that are not empty. After the last one, reading fails. -/
abbrev Stream := List (List UInt8)

/-- `conn.Read` into a buffer of `n` bytes, which are zero before: the buffer afterwards. -/
def read (n : ℕ) (s : Stream) : Except String (List UInt8 × Stream) :=
  if n = 0 then .ok ([], s)
  else
    match s with
    | [] => .error "i/o timeout"
    | segment :: rest =>
      let got := segment.take n
      .ok (got ++ List.replicate (n - got.length) 0,
        if segment.length ≤ n then rest else segment.drop n :: rest)

/-- `recv`. -/
def recv (s : Stream) : Except String ((Int32 × List UInt8) × Stream) := do
  let (lenBuf, s) ← read 4 s
  let length := uint32 lenBuf
  if length > 4096 + 16 then .error "rcon: packet too large"
  else do
    let (rest, s) ← read length s
    if length < 10 then .error "rcon: packet too short"
    else
      let pay := rest.drop 8
      .ok ((int32 (uint32 rest), pay.takeWhile (· ≠ 0)), s)

/-- One `recv` after the other: the results of the first `n`, up to an error. -/
def recvAll : ℕ → Stream → List (Int32 × List UInt8)
  | 0, _ => []
  | n + 1, s =>
    match recv s with
    | .ok (packet, s) => packet :: recvAll n s
    | .error _ => []

/-- The stream delivers some bytes. -/
structure Delivers (s : Stream) (bytes : List UInt8) : Prop where
  segments : ∀ segment ∈ s, segment ≠ []
  flatten : s.flatten = bytes

/-! ## The command -/

/-- `joinResponses`. -/
def joinResponses (parts : List (List UInt8)) : List UInt8 := List.intercalate [10] parts

/-- The loop of `Exec`, whose rounds are bounded here. -/
def execLoop (reqID : Int32) : ℕ → List (List UInt8) → Stream → Except String (List UInt8)
  | 0, _, _ => .error "unfinished"
  | fuel + 1, out, s =>
    match recv s with
    | .error err => if out.length > 0 then .ok (joinResponses out) else .error err
    | .ok ((id, payload), s) =>
      if id = reqID ∧ payload ≠ [] then
        if payload.length < 4000 then .ok (joinResponses (out ++ [payload]))
        else execLoop reqID fuel (out ++ [payload]) s
      else execLoop reqID fuel out s

/-- `Exec` after the command was sent. Every round takes at least one byte. -/
def exec (reqID : Int32) (s : Stream) : Except String (List UInt8) :=
  execLoop reqID (s.flatten.length + 1) [] s

/-! ## Numbers of four bytes -/

theorem putUint32_length (v : ℕ) : (putUint32 v).length = 4 := rfl

theorem uint32_putUint32 {v : ℕ} (h : v < 2 ^ 32) (rest : List UInt8) :
    uint32 (putUint32 v ++ rest) = v := by
  simp only [uint32, putUint32, List.cons_append, List.getD_cons_zero, List.getD_cons_succ,
    UInt8.toNat_ofNat']
  omega

theorem int32_toUInt32 (id : Int32) : int32 id.toUInt32.toNat = id := by
  unfold int32
  rw [UInt32.ofNat_toNat]
  rfl

/-- A number whose bytes are all set. -/
theorem bytes_of_int32 {b : List UInt8} (h : int32 (uint32 b) = -1) :
    ∀ k < 4, b.getD k 0 = 255 := by
  have hlt : ∀ k, (b.getD k 0).toNat < 2 ^ 8 := fun k => (b.getD k 0).toNat_lt
  have h0 := hlt 0
  have h1 := hlt 1
  have h2 := hlt 2
  have h3 := hlt 3
  have hvalue : uint32 b = 2 ^ 32 - 1 := by
    have hto := congrArg (fun i : Int32 => i.toUInt32.toNat) h
    simp only [int32] at hto
    have hmod : (UInt32.ofNat (uint32 b)).toNat = 2 ^ 32 - 1 := hto
    rw [UInt32.toNat_ofNat', Nat.mod_eq_of_lt (by unfold uint32; omega)] at hmod
    exact hmod
  unfold uint32 at hvalue
  intro k hk
  have hnat : (b.getD k 0).toNat = 255 := by
    interval_cases k <;> omega
  exact UInt8.toNat_inj.mp hnat

/-! ## Segments -/

/-- The segments of the given sizes of some bytes. -/
def cut : List ℕ → List UInt8 → Stream
  | [], _ => []
  | size :: sizes, bytes => bytes.take size :: cut sizes (bytes.drop size)

/-- What is left of segments of some sizes after `n` bytes, when these are of the first one. -/
def takeWhole (n : ℕ) : List ℕ → Option (List ℕ)
  | [] => none
  | size :: sizes =>
    if n < size then some ((size - n) :: sizes) else if size = n then some sizes else none

/-- The number of bytes of a body that tell the id and the payload. -/
def needed (length : ℕ) : ℕ := if length = 0 then 4 else length + 8

/-- No length and no body of packets with payloads of some lengths is cut, but for what is not needed
of the last body. -/
def aligned : List ℕ → List ℕ → Bool
  | [], _ => true
  | length :: lengths, sizes =>
    match takeWhole 4 sizes with
    | none => false
    | some sizes =>
      match takeWhole (length + 10) sizes with
      | some sizes => aligned lengths sizes
      | none => lengths = [] && sizes.head?.any (needed length ≤ ·)

/-- Sizes of segments that make up a number of bytes. -/
structure Segmentation (sizes : List ℕ) (total : ℕ) : Prop where
  pos : ∀ size ∈ sizes, 0 < size
  sum : sizes.sum = total

theorem cut_spec {sizes : List ℕ} {bytes : List UInt8} (h : Segmentation sizes bytes.length) :
    Delivers (cut sizes bytes) bytes ∧ (cut sizes bytes).map List.length = sizes := by
  induction sizes generalizing bytes with
  | nil =>
    have hempty : bytes = [] := List.length_eq_zero_iff.mp h.sum.symm
    exact ⟨⟨by simp [cut], by simp [cut, hempty]⟩, rfl⟩
  | cons size sizes ih =>
    have hsum := h.sum
    rw [List.sum_cons] at hsum
    obtain ⟨hdelivers, hlengths⟩ := @ih (bytes.drop size)
      ⟨fun n hn => h.pos n (List.mem_cons_of_mem _ hn), by rw [List.length_drop]; omega⟩
    have hpos := h.pos size List.mem_cons_self
    have hlength : (bytes.take size).length = size := by
      rw [List.length_take]
      omega
    refine ⟨⟨?_, ?_⟩, ?_⟩
    · refine List.forall_mem_cons.mpr ⟨fun hnil => ?_, hdelivers.segments⟩
      rw [hnil] at hlength
      simp at hlength
      omega
    · rw [cut, List.flatten_cons, hdelivers.flatten, List.take_append_drop]
    · rw [cut, List.map_cons, hlength, hlengths]

theorem read_cons {n : ℕ} (hn : 0 < n) (segment : List UInt8) (rest : Stream) :
    read n (segment :: rest) =
      .ok (segment.take n ++ List.replicate (n - (segment.take n).length) 0,
        if segment.length ≤ n then rest else segment.drop n :: rest) :=
  if_neg hn.ne'

/-- What a stream delivers after a read. -/
theorem Delivers.after_read {segment : List UInt8} {rest : Stream} {bytes : List UInt8}
    (h : Delivers (segment :: rest) bytes) (n : ℕ) :
    Delivers (if segment.length ≤ n then rest else segment.drop n :: rest)
      (bytes.drop (segment.take n).length) := by
  obtain ⟨hsegments, hflatten⟩ := h
  obtain ⟨-, hrest⟩ := List.forall_mem_cons.mp hsegments
  rw [List.flatten_cons] at hflatten
  rw [← hflatten]
  split_ifs with hshort
  · rw [List.take_of_length_le hshort, List.drop_left]
    exact ⟨hrest, rfl⟩
  · have hlength : (segment.take n).length = n := by
      rw [List.length_take]
      omega
    rw [hlength, List.drop_append_of_le_length (by omega)]
    refine ⟨List.forall_mem_cons.mpr ⟨fun hnil => ?_, hrest⟩, List.flatten_cons⟩
    have hzero := congrArg List.length hnil
    rw [List.length_drop, List.length_nil] at hzero
    omega

/-- A read that is not cut. -/
theorem read_whole {n : ℕ} (hn : 0 < n) {s : Stream} {a rest : List UInt8} {sizes : List ℕ}
    (h : Delivers s (a ++ rest)) (ha : a.length = n)
    (hwhole : takeWhole n (s.map List.length) = some sizes) :
    ∃ s', read n s = .ok (a, s') ∧ Delivers s' rest ∧ s'.map List.length = sizes := by
  cases s with
  | nil => cases hwhole
  | cons segment tail =>
    have hlong : n ≤ segment.length := by
      simp only [List.map_cons, takeWhole] at hwhole
      split_ifs at hwhole <;> omega
    have hlength : (segment.take n).length = n := by
      rw [List.length_take]
      omega
    have htake : segment.take n = a := by
      have hflatten := h.flatten
      rw [List.flatten_cons] at hflatten
      have hinside : (segment ++ tail.flatten).take n = segment.take n :=
        List.take_append_of_le_length hlong
      rw [← hinside, hflatten, ← ha, List.take_left]
    have hafter := h.after_read n
    rw [hlength, ← ha, List.drop_left, ha] at hafter
    refine ⟨_, ?_, hafter, ?_⟩
    · rw [read_cons hn, hlength, Nat.sub_self, List.replicate_zero, List.append_nil, htake]
    · simp only [List.map_cons, takeWhole] at hwhole
      split_ifs at hwhole with hmore hsame
      · rw [if_neg (by omega), List.map_cons, List.length_drop]
        exact Option.some.inj hwhole
      · rw [if_pos (by omega)]
        exact Option.some.inj hwhole

/-! ## Packets that are not cut -/

theorem takeWhile_plain {payload zeros : List UInt8} (hplain : 0 ∉ payload)
    (hzeros : ∀ b ∈ zeros, b = 0) : (payload ++ zeros).takeWhile (· ≠ 0) = payload := by
  have hall : ∀ b ∈ payload, decide (b ≠ 0) = true := by
    intro b hb
    refine decide_eq_true ?_
    rintro rfl
    exact hplain hb
  rw [List.takeWhile_append_of_pos hall]
  cases zeros with
  | nil => simp
  | cons b bs =>
    obtain rfl := hzeros b List.mem_cons_self
    simp

theorem Packet.body_length (p : Packet) : p.body.length = p.payload.length + 10 := by
  simp only [body, List.length_append, putUint32_length, List.length_cons, List.length_nil]
  omega

/-- A body is read back from as much of it as is needed, with zeros for the rest. -/
theorem Packet.decode_body {p : Packet} (hp : p.Valid) {k : ℕ} (hk : needed p.payload.length ≤ k)
    (zeros : List UInt8) (hzeros : ∀ b ∈ zeros, b = 0) :
    int32 (uint32 (p.body.take k ++ zeros)) = p.requestID ∧
      ((p.body.take k ++ zeros).drop 8).takeWhile (· ≠ 0) = p.payload := by
  have hfour : 4 ≤ k := by
    unfold needed at hk
    split_ifs at hk <;> omega
  constructor
  · have hhead : p.body.take k ++ zeros = putUint32 p.requestID.toUInt32.toNat ++
        ((putUint32 p.typ.toUInt32.toNat ++ p.payload ++ [0, 0]).take (k - 4) ++ zeros) := by
      have htake : (putUint32 p.requestID.toUInt32.toNat).take k =
          putUint32 p.requestID.toUInt32.toNat := List.take_of_length_le hfour
      unfold body
      rw [List.append_assoc, List.append_assoc, List.take_append, htake, putUint32_length,
        List.append_assoc, List.append_assoc]
    rw [hhead, uint32_putUint32 (UInt32.toNat_lt _), int32_toUInt32]
  · have hids : ∀ x : List UInt8, (putUint32 p.requestID.toUInt32.toNat ++
        putUint32 p.typ.toUInt32.toNat ++ x).drop 8 = x := fun x => rfl
    by_cases hempty : p.payload = []
    · -- whatever follows the id is zero or the type, which is not looked at
      rw [hempty]
      have hall : ∀ b ∈ (p.body.take k ++ zeros).drop 8, b = 0 := by
        intro b hb
        have hsplit : p.body = putUint32 p.requestID.toUInt32.toNat ++
            putUint32 p.typ.toUInt32.toNat ++ [0, 0] := by
          unfold body
          rw [hempty, List.append_nil]
        rw [List.drop_append, List.drop_take, hsplit, hids] at hb
        rcases List.mem_append.mp hb with hb | hb
        · have hmem := List.mem_of_mem_take hb
          simpa using hmem
        · exact hzeros b (List.mem_of_mem_drop hb)
      exact @takeWhile_plain [] _ (by simp) hall
    · have hlong : p.payload.length + 8 ≤ k := by
        unfold needed at hk
        rwa [if_neg (fun h => hempty (List.length_eq_zero_iff.mp h))] at hk
      have hdrop : (p.body.take k ++ zeros).drop 8 =
          p.payload ++ (([0, 0] : List UInt8).take (k - (p.payload.length + 8)) ++ zeros) := by
        have hlength : (putUint32 p.requestID.toUInt32.toNat ++ putUint32 p.typ.toUInt32.toNat ++
            p.payload).length = p.payload.length + 8 := by
          simp only [List.length_append, putUint32_length]
          omega
        unfold body
        rw [List.take_append, List.take_of_length_le (hlength.trans_le hlong), hlength,
          List.append_assoc, List.append_assoc _ p.payload, hids]
      rw [hdrop]
      refine takeWhile_plain hp.plain fun b hb => ?_
      rcases List.mem_append.mp hb with hb | hb
      · simpa using List.mem_of_mem_take hb
      · exact hzeros b hb

theorem uint32_encode {n : ℕ} (hn : n ≤ 4102) : uint32 (putUint32 (n + 10)) = n + 10 := by
  have hvalue := uint32_putUint32 (v := n + 10) (by omega) []
  rwa [List.append_nil] at hvalue

/-- What `recv` does after a length that is not cut. -/
theorem recv_of_header {n : ℕ} (hn : n ≤ 4102) {s s' : Stream}
    (h : read 4 s = .ok (putUint32 (n + 10), s')) :
    recv s = (do
      let (rest, s) ← read (n + 10) s'
      .ok ((int32 (uint32 rest), (rest.drop 8).takeWhile (· ≠ 0)), s)) := by
  unfold recv
  rw [h]
  simp only [bind, Except.bind, uint32_encode hn, gt_iff_lt]
  rw [if_neg (by omega)]
  cases read (n + 10) s' with
  | error err => rfl
  | ok result =>
    dsimp only
    rw [if_neg (by omega)]

/-- A packet that is not cut is read back, and the stream is then at the next one. -/
theorem recv_whole {p : Packet} (hp : p.Valid) {s : Stream} {rest : List UInt8}
    (h : Delivers s (p.encode ++ rest)) {sizes sizes' : List ℕ}
    (hheader : takeWhole 4 (s.map List.length) = some sizes)
    (hbody : takeWhole (p.payload.length + 10) sizes = some sizes') :
    ∃ s', recv s = .ok ((p.requestID, p.payload), s') ∧ Delivers s' rest ∧
      s'.map List.length = sizes' := by
  unfold Packet.encode at h
  rw [List.append_assoc] at h
  obtain ⟨s₁, hread, hs₁, rfl⟩ := read_whole (by decide) h (putUint32_length _) hheader
  obtain ⟨s₂, hread₂, hs₂, rfl⟩ := read_whole (by omega) hs₁ p.body_length hbody
  refine ⟨s₂, ?_, hs₂, rfl⟩
  have hneeded : needed p.payload.length ≤ p.payload.length + 10 := by
    unfold needed
    split_ifs <;> omega
  have hdecode := Packet.decode_body hp hneeded [] (by simp)
  rw [List.append_nil, List.take_of_length_le p.body_length.le] at hdecode
  rw [recv_of_header hp.short hread, hread₂]
  simp only [bind, Except.bind, hdecode.1, hdecode.2]

/-- A packet of which enough arrives in the first segments is read back. -/
theorem recv_needed {p : Packet} (hp : p.Valid) {s : Stream} (h : Delivers s p.encode)
    {sizes : List ℕ} (hheader : takeWhole 4 (s.map List.length) = some sizes)
    (hbody : takeWhole (p.payload.length + 10) sizes = none)
    (hneeded : sizes.head?.any (needed p.payload.length ≤ ·)) :
    ∃ s', recv s = .ok ((p.requestID, p.payload), s') := by
  obtain ⟨s₁, hread, hs₁, rfl⟩ := read_whole (by decide) h (putUint32_length _) hheader
  cases s₁ with
  | nil => cases hneeded
  | cons segment rest =>
    have hlong : needed p.payload.length ≤ segment.length := by simpa using hneeded
    have hshort : segment.length ≤ p.payload.length + 10 := by
      simp only [List.map_cons, takeWhole] at hbody
      split_ifs at hbody
      omega
    have htake : segment = p.body.take segment.length := by
      rw [← hs₁.flatten, List.flatten_cons, List.take_left]
    have hdecode := Packet.decode_body hp hlong
      (List.replicate (p.payload.length + 10 - segment.length) 0) (by simp)
    rw [← htake] at hdecode
    rw [recv_of_header hp.short hread, read_cons (by omega), List.take_of_length_le hshort]
    simp only [bind, Except.bind, hdecode.1, hdecode.2]
    exact ⟨_, rfl⟩

/-- Packets that are not cut are all read back. -/
theorem recvAll_of_aligned {packets : List Packet} (hvalid : ∀ p ∈ packets, p.Valid) {s : Stream}
    (h : Delivers s (packets.flatMap Packet.encode))
    (haligned : aligned (packets.map fun p => p.payload.length) (s.map List.length)) :
    recvAll packets.length s = packets.map fun p => (p.requestID, p.payload) := by
  induction packets generalizing s with
  | nil => rfl
  | cons p packets ih =>
    obtain ⟨hp, hrest⟩ := List.forall_mem_cons.mp hvalid
    rw [List.flatMap_cons] at h
    rw [List.map_cons, aligned] at haligned
    cases hheader : takeWhole 4 (s.map List.length) with
    | none =>
      rw [hheader] at haligned
      cases haligned
    | some sizes =>
      rw [hheader] at haligned
      dsimp only at haligned
      cases hbody : takeWhole (p.payload.length + 10) sizes with
      | some sizes' =>
        rw [hbody] at haligned
        obtain ⟨s', hrecv, hs', rfl⟩ := recv_whole hp h hheader hbody
        rw [List.length_cons, recvAll, hrecv, List.map_cons]
        exact congrArg _ (ih hrest hs' haligned)
      | none =>
        -- only the last packet may be cut in what is not needed
        rw [hbody] at haligned
        simp only [Bool.and_eq_true, decide_eq_true_eq, List.map_eq_nil_iff] at haligned
        obtain ⟨rfl, hneeded⟩ := haligned
        rw [List.flatMap_nil, List.append_nil] at h
        obtain ⟨s', hrecv⟩ := recv_needed hp h hheader hbody hneeded
        rw [List.length_singleton, recvAll, hrecv]
        rfl

/-! ## Packets that are cut -/

/-- A packet whose id has all bits set. -/
def probe (payload : List UInt8) : Packet := ⟨-1, 0, payload⟩

/-- What one read does: it takes as many bytes as the first segment has, up to the buffer's length. -/
theorem read_ok {n : ℕ} (hn : 0 < n) {s s' : Stream} {bytes buffer : List UInt8}
    (h : Delivers s bytes) (hread : read n s = .ok (buffer, s')) :
    ∃ k, 1 ≤ k ∧ k ≤ n ∧ k ≤ bytes.length ∧ buffer = bytes.take k ++ List.replicate (n - k) 0 ∧
      Delivers s' (bytes.drop k) ∧
      (k = n → takeWhole n (s.map List.length) = some (s'.map List.length)) ∧
      (k < n → takeWhole n (s.map List.length) = none ∧ (s.map List.length).head? = some k) := by
  cases s with
  | nil =>
    unfold read at hread
    rw [if_neg hn.ne'] at hread
    cases hread
  | cons segment rest =>
    have hpos : 0 < segment.length :=
      List.length_pos_of_ne_nil (h.segments segment List.mem_cons_self)
    have hafter := h.after_read n
    have hflatten := h.flatten
    rw [read_cons hn] at hread
    obtain ⟨rfl, rfl⟩ := Prod.mk.inj (Except.ok.inj hread)
    rw [List.flatten_cons] at hflatten
    refine ⟨(segment.take n).length, ?_, ?_, ?_, ?_, hafter, ?_, ?_⟩
    · rw [List.length_take]
      omega
    · rw [List.length_take]
      omega
    · rw [← hflatten, List.length_append, List.length_take]
      omega
    · rw [← hflatten, List.take_append_of_le_length (by rw [List.length_take]; omega),
        List.length_take, List.take_eq_take_min]
    · intro hk
      rw [List.length_take] at hk
      simp only [List.map_cons, takeWhole]
      split_ifs with hmore hsame
      · omega
      · rw [List.map_cons, List.length_drop]
      · rfl
      · omega
      · omega
    · intro hk
      rw [List.length_take] at hk
      simp only [List.map_cons, takeWhole]
      rw [if_neg (by omega), if_neg (by omega), List.length_take]
      exact ⟨rfl, congrArg some (by omega)⟩

/-- The two reads of a `recv` that succeeds. -/
theorem recv_ok {s s' : Stream} {id : Int32} {pay : List UInt8}
    (h : recv s = .ok ((id, pay), s')) :
    ∃ lenBuf s₁ buffer, read 4 s = .ok (lenBuf, s₁) ∧ 10 ≤ uint32 lenBuf ∧
      read (uint32 lenBuf) s₁ = .ok (buffer, s') ∧ int32 (uint32 buffer) = id ∧
      (buffer.drop 8).takeWhile (· ≠ 0) = pay := by
  unfold recv at h
  simp only [bind, Except.bind] at h
  cases hheader : read 4 s with
  | error err => simp [hheader] at h
  | ok result =>
    obtain ⟨lenBuf, s₁⟩ := result
    rw [hheader] at h
    dsimp only at h
    by_cases hlarge : uint32 lenBuf > 4096 + 16
    · rw [if_pos hlarge] at h
      cases h
    rw [if_neg hlarge] at h
    cases hbody : read (uint32 lenBuf) s₁ with
    | error err => simp [hbody] at h
    | ok result =>
      obtain ⟨buffer, s₂⟩ := result
      rw [hbody] at h
      dsimp only at h
      split_ifs at h with hshort
      obtain ⟨hpair, rfl⟩ := Prod.mk.inj (Except.ok.inj h)
      obtain ⟨hid, hpay⟩ := Prod.mk.inj hpair
      exact ⟨lenBuf, s₁, buffer, rfl, not_lt.mp hshort, hbody, hid, hpay⟩

/-- What was not read is zero. -/
theorem getD_unread {bytes : List UInt8} {k i : ℕ} (hk : k ≤ i) (hbytes : k ≤ bytes.length) (m : ℕ) :
    (bytes.take k ++ List.replicate m 0).getD i 0 = 0 := by
  rw [List.getD_append_right _ _ _ _ (by rw [List.length_take]; omega), List.getD_eq_getElem?_getD,
    List.getElem?_replicate]
  split_ifs <;> rfl

/-- Such an id is read only where the next four bytes are all set. -/
theorem bytes_of_probe {n : ℕ} (hn : 0 < n) {s s' : Stream} {bytes buffer : List UInt8}
    (h : Delivers s bytes) (hread : read n s = .ok (buffer, s'))
    (hid : int32 (uint32 buffer) = -1) : ∀ i < 4, bytes[i]? = some 255 := by
  obtain ⟨k, -, -, hk, rfl, -, -, -⟩ := read_ok hn h hread
  intro i hi
  have hbyte := bytes_of_int32 hid i hi
  rcases Nat.lt_or_ge i k with hread | hunread
  · have hlength : i < (bytes.take k).length := by
      rw [List.length_take]
      omega
    rw [List.getD_append _ _ _ _ hlength, List.getD_eq_getElem _ _ hlength,
      List.getElem_take] at hbyte
    rw [List.getElem?_eq_getElem (by omega), hbyte]
  · rw [getD_unread hunread hk] at hbyte
    exact absurd hbyte (by decide)

theorem probe_body (payload : List UInt8) :
    (probe payload).body = [255, 255, 255, 255, 0, 0, 0, 0] ++ payload ++ [0, 0] := by
  have hid : putUint32 (-1 : Int32).toUInt32.toNat = [255, 255, 255, 255] := by decide
  have htyp : putUint32 (0 : Int32).toUInt32.toNat = [0, 0, 0, 0] := by decide
  unfold Packet.body probe
  rw [hid, htyp]
  rfl

/-- Behind what is needed of the body of a probe there are zeros. -/
theorem probe_body_zero {payload : List UInt8} {i : ℕ} (hneeded : needed payload.length ≤ i)
    (hi : i < payload.length + 10) : (probe payload).body[i]? = some 0 := by
  rw [probe_body]
  by_cases hempty : payload = []
  · subst hempty
    simp only [needed, List.length_nil, if_true] at hneeded hi
    interval_cases i <;> rfl
  · have hlength : ([255, 255, 255, 255, 0, 0, 0, 0] ++ payload).length = payload.length + 8 := by
      simp only [List.length_append, List.length_cons, List.length_nil]
      omega
    unfold needed at hneeded
    rw [if_neg (fun h => hempty (List.length_eq_zero_iff.mp h))] at hneeded
    rw [List.getElem?_append_right (by omega), hlength]
    obtain ⟨m, hm⟩ : ∃ m, i - (payload.length + 8) = m := ⟨_, rfl⟩
    rw [hm]
    have hlt : m < 2 := by omega
    interval_cases m <;> rfl

/-- A probe that is read back is not cut in its length, nor in what is needed of its body. -/
theorem recv_probe_step {payload tail : List UInt8} (hvalid : (probe payload).Valid) {s s' : Stream}
    (h : Delivers s ((probe payload).encode ++ tail))
    (hrecv : recv s = .ok ((-1, payload), s')) :
    ∃ sizes, takeWhole 4 (s.map List.length) = some sizes ∧
      (takeWhole (payload.length + 10) sizes = some (s'.map List.length) ∧ Delivers s' tail ∨
        takeWhole (payload.length + 10) sizes = none ∧ ∃ k, sizes.head? = some k ∧
          needed payload.length ≤ k ∧ k < payload.length + 10 ∧
          Delivers s' ((probe payload).body.drop k ++ tail)) := by
  obtain ⟨lenBuf, s₁, buffer, hheader, hlong, hbody, hid, hpay⟩ := recv_ok hrecv
  have hencode : (probe payload).encode ++ tail =
      putUint32 (payload.length + 10) ++ ((probe payload).body ++ tail) := by
    unfold Packet.encode
    rw [List.append_assoc]
    rfl
  rw [hencode] at h
  obtain ⟨k, hpos, hk, -, rfl, hs₁, hwhole, -⟩ := read_ok (by decide) h hheader
  -- the length is not cut: behind a part of it there is one of its zeros
  have hfour : k = 4 := by
    by_contra hne
    have hset := bytes_of_probe (by omega) hs₁ hbody hid (3 - k) (by omega)
    have hthree : (putUint32 (payload.length + 10) ++ ((probe payload).body ++ tail))[3]? =
        some (UInt8.ofNat ((payload.length + 10) / 2 ^ 24)) := rfl
    have hshort : payload.length ≤ 4102 := hvalid.short
    rw [List.getElem?_drop, Nat.add_sub_cancel' (by omega), hthree,
      Nat.div_eq_of_lt (by omega)] at hset
    exact absurd hset (by decide)
  subst hfour
  have hlength : uint32 ((putUint32 (payload.length + 10) ++ ((probe payload).body ++ tail)).take 4 ++
      List.replicate (4 - 4) 0) = payload.length + 10 := by
    have htake : (putUint32 (payload.length + 10) ++ ((probe payload).body ++ tail)).take 4 =
        putUint32 (payload.length + 10) := rfl
    rw [htake, Nat.sub_self, List.replicate_zero, List.append_nil]
    exact uint32_encode hvalid.short
  rw [hlength] at hbody
  have hdrop : (putUint32 (payload.length + 10) ++ ((probe payload).body ++ tail)).drop 4 =
      (probe payload).body ++ tail := rfl
  rw [hdrop] at hs₁
  refine ⟨_, hwhole rfl, ?_⟩
  have hset := bytes_of_probe (by omega) hs₁ hbody hid
  obtain ⟨k, hpos, hk, hbytes, rfl, hs', hwhole, hcut⟩ := read_ok (by omega) hs₁ hbody
  have hbodylength : (probe payload).body.length = payload.length + 10 := (probe payload).body_length
  rcases hk.eq_or_lt with rfl | hlt
  · refine .inl ⟨hwhole rfl, ?_⟩
    rwa [← hbodylength, List.drop_left] at hs'
  · refine .inr ⟨(hcut hlt).1, k, (hcut hlt).2, ?_, hlt, ?_⟩
    · have hfour : 4 ≤ k := by
        by_contra hless
        have hbyte := bytes_of_int32 hid 3 (by decide)
        rw [getD_unread (by omega) hbytes] at hbyte
        exact absurd hbyte (by decide)
      unfold needed
      split_ifs with hempty
      · exact hfour
      · -- the last byte of the payload was read, because it is not zero
        by_contra hless
        have hprefix := List.takeWhile_prefix (l := List.drop 8 (((probe payload).body ++ tail).take k ++
          List.replicate (payload.length + 10 - k) 0)) (· ≠ 0)
        rw [hpay] at hprefix
        have hlast := hprefix.getElem (i := payload.length - 1) (by omega)
        rw [List.getElem_drop] at hlast
        have hzero := getD_unread (i := 8 + (payload.length - 1)) (by omega) hbytes
          (payload.length + 10 - k)
        rw [List.getD_eq_getElem _ _ (by
          have hlong := hprefix.length_le
          rw [List.length_drop] at hlong
          omega), ← hlast] at hzero
        exact hvalid.plain (hzero ▸ List.getElem_mem _)
    · rwa [List.drop_append_of_le_length (by omega)] at hs'

/-- After a body that was cut, the next probe is not read back. -/
theorem recv_after_cut {payload payload' tail pay : List UInt8} (hvalid : (probe payload').Valid)
    {k : ℕ} (hneeded : needed payload.length ≤ k) (hk : k < payload.length + 10) {s s' : Stream}
    (h : Delivers s ((probe payload).body.drop k ++ ((probe payload').encode ++ tail))) :
    recv s ≠ .ok ((-1, pay), s') := by
  intro hrecv
  obtain ⟨lenBuf, s₁, buffer, hheader, hlong, hbody, hid, -⟩ := recv_ok hrecv
  obtain ⟨j, hpos, hj, -, -, hs₁, -, -⟩ := read_ok (by decide) h hheader
  have hset := bytes_of_probe (by omega) hs₁ hbody hid
  have hleft : ((probe payload).body.drop k).length = payload.length + 10 - k := by
    rw [List.length_drop, (probe payload).body_length]
    rfl
  by_cases hinside : j < payload.length + 10 - k
  · -- the id is read from the rest of the body
    have hbyte := hset 0 (by decide)
    rw [List.getElem?_drop, List.getElem?_append_left (by omega), List.getElem?_drop,
      probe_body_zero (by omega) (by omega)] at hbyte
    exact absurd hbyte (by decide)
  · -- or from the length behind it, whose last byte is zero
    have hbyte := hset (payload.length + 10 - k + 3 - j) (by omega)
    have hindex : j + (payload.length + 10 - k + 3 - j) - ((probe payload).body.drop k).length = 3 := by
      omega
    have hshort : payload'.length ≤ 4102 := hvalid.short
    have hthree : ((probe payload').encode ++ tail)[3]? =
        some (UInt8.ofNat ((payload'.length + 10) / 2 ^ 24)) := rfl
    rw [List.getElem?_drop, List.getElem?_append_right (by omega), hindex, hthree,
      Nat.div_eq_of_lt (by omega)] at hbyte
    exact absurd hbyte (by decide)

/-- Probes that are all read back are not cut. -/
theorem aligned_of_recvAll {payloads : List (List UInt8)}
    (hvalid : ∀ payload ∈ payloads, (probe payload).Valid) {s : Stream}
    (h : Delivers s ((payloads.map probe).flatMap Packet.encode))
    (hall : recvAll payloads.length s = payloads.map fun payload => (-1, payload)) :
    aligned (payloads.map List.length) (s.map List.length) := by
  induction payloads generalizing s with
  | nil => rfl
  | cons payload payloads ih =>
    obtain ⟨hp, hrest⟩ := List.forall_mem_cons.mp hvalid
    rw [List.map_cons, List.flatMap_cons] at h
    rw [List.length_cons, recvAll, List.map_cons] at hall
    cases hrecv : recv s with
    | error err =>
      rw [hrecv] at hall
      cases hall
    | ok result =>
      obtain ⟨packet, s'⟩ := result
      rw [hrecv] at hall
      obtain ⟨rfl, hlater⟩ := List.cons.inj hall
      obtain ⟨sizes, hheader, ⟨hbody, hs'⟩ | ⟨hbody, k, hhead, hneeded, hk, hs'⟩⟩ :=
        recv_probe_step hp h hrecv
      · rw [List.map_cons, aligned, hheader]
        dsimp only
        rw [hbody]
        exact ih hrest hs' hlater
      · rw [List.map_cons, aligned, hheader]
        dsimp only
        rw [hbody, hhead]
        cases payloads with
        | nil => simpa using hneeded
        | cons payload' payloads =>
          -- the next packet would have to be read from where the body was cut
          rw [List.map_cons, List.flatMap_cons] at hs'
          rw [List.length_cons, recvAll, List.map_cons] at hlater
          cases hnext : recv s' with
          | error err =>
            rw [hnext] at hlater
            cases hlater
          | ok result =>
            obtain ⟨packet, s''⟩ := result
            rw [hnext] at hlater
            obtain ⟨rfl, -⟩ := List.cons.inj hlater
            exact absurd hnext
              (recv_after_cut (hrest payload' List.mem_cons_self) hneeded hk hs')

/-- The number of bytes of packets with some payloads. -/
def encodedLength (payloads : List (List UInt8)) : ℕ := (payloads.map fun p => p.length + 14).sum

theorem encode_length (packets : List Packet) :
    (packets.flatMap Packet.encode).length = encodedLength (packets.map Packet.payload) := by
  unfold encodedLength
  rw [List.length_flatMap, List.map_map]
  refine congrArg List.sum (List.map_congr_left fun p _ => ?_)
  unfold Packet.encode
  rw [List.length_append, putUint32_length, p.body_length]
  simp only [Function.comp_apply]
  omega

/-- Packets with some payloads are read back from segments of some sizes, whatever their ids and types
are, exactly when no length and no body is cut, but for what is not needed of the last body. -/
theorem recvAll_iff (payloads : List (List UInt8))
    (hvalid : ∀ payload ∈ payloads, payload.length ≤ 4102 ∧ 0 ∉ payload) (sizes : List ℕ)
    (hsizes : Segmentation sizes (encodedLength payloads)) :
    (∀ packets : List Packet, packets.map Packet.payload = payloads →
      recvAll packets.length (cut sizes (packets.flatMap Packet.encode)) =
        packets.map fun p => (p.requestID, p.payload)) ↔
      aligned (payloads.map List.length) sizes := by
  constructor
  · intro h
    have hprobes : (payloads.map probe).map Packet.payload = payloads := by
      rw [List.map_map]
      exact List.map_id _
    have hall := h _ hprobes
    rw [List.length_map, List.map_map] at hall
    obtain ⟨hdelivers, hlengths⟩ := @cut_spec sizes ((payloads.map probe).flatMap Packet.encode)
      (by rwa [encode_length, hprobes])
    rw [← hlengths]
    exact aligned_of_recvAll (fun payload hp => ⟨(hvalid payload hp).1, (hvalid payload hp).2⟩)
      hdelivers hall
  · rintro haligned packets rfl
    obtain ⟨hdelivers, hlengths⟩ := @cut_spec sizes (packets.flatMap Packet.encode)
      (by rwa [encode_length])
    refine recvAll_of_aligned (fun p hp => ?_) hdelivers ?_
    · obtain ⟨hshort, hplain⟩ := hvalid p.payload (List.mem_map_of_mem hp)
      exact ⟨hshort, hplain⟩
    · rw [List.map_map] at haligned
      rw [hlengths]
      exact haligned

/-- Two packets, the second one cut behind its payload or within it. -/
theorem recvAll_iff_two :
    (∀ packets : List Packet, packets.map Packet.payload = [[97], [98, 99]] →
      recvAll packets.length (cut [4, 11, 4, 10, 2] (packets.flatMap Packet.encode)) =
        packets.map fun p => (p.requestID, p.payload)) ∧
    ¬∀ packets : List Packet, packets.map Packet.payload = [[97], [98, 99]] →
      recvAll packets.length (cut [4, 11, 4, 9, 3] (packets.flatMap Packet.encode)) =
        packets.map fun p => (p.requestID, p.payload) := by
  have hbehind := recvAll_iff [[97], [98, 99]] (by decide) [4, 11, 4, 10, 2] ⟨by decide, by decide⟩
  have hwithin := recvAll_iff [[97], [98, 99]] (by decide) [4, 11, 4, 9, 3] ⟨by decide, by decide⟩
  exact ⟨hbehind.mpr (by decide), fun h => absurd (hwithin.mp h) (by decide)⟩

/-- A packet whose body is cut is read back with another payload. -/
theorem recvAll_cut : Segmentation [4, 9, 3] (Packet.encode ⟨7, 0, [97, 98]⟩).length ∧
    recvAll 1 (cut [4, 9, 3] (Packet.encode ⟨7, 0, [97, 98]⟩)) ≠ [(7, [97, 98])] :=
  ⟨⟨by decide, by decide⟩, by decide⟩

/-! ## Responses -/

/-- The payloads in which a server sends a response: full ones, and then a shorter one. -/
def chunks (text : List UInt8) : List (List UInt8) :=
  if text.length < 4096 then [text] else text.take 4096 :: chunks (text.drop 4096)
termination_by text.length
decreasing_by
  rw [List.length_drop]
  omega

/-- The packets of a response. -/
def response (reqID typ : Int32) (text : List UInt8) : List Packet :=
  (chunks text).map fun payload => ⟨reqID, typ, payload⟩

/-- No length and no body is cut. -/
def whole : List ℕ → List ℕ → Bool
  | [], _ => true
  | length :: lengths, sizes =>
    match (takeWhole 4 sizes).bind (takeWhole (length + 10)) with
    | none => false
    | some sizes => whole lengths sizes

/-- The loop of `Exec` over packets that are read whole, after which nothing arrives in time. -/
def collect : List (List UInt8) → List (List UInt8) → Except String (List UInt8)
  | out, [] => if out.length > 0 then .ok (joinResponses out) else .error "i/o timeout"
  | out, payload :: payloads =>
    if payload ≠ [] then
      if payload.length < 4000 then .ok (joinResponses (out ++ [payload]))
      else collect (out ++ [payload]) payloads
    else collect out payloads

theorem execLoop_whole {reqID typ : Int32} {payloads : List (List UInt8)}
    (hvalid : ∀ payload ∈ payloads, payload.length ≤ 4102 ∧ 0 ∉ payload) {s : Stream}
    (h : Delivers s ((payloads.map (Packet.mk reqID typ)).flatMap Packet.encode))
    (hwhole : whole (payloads.map List.length) (s.map List.length)) {fuel : ℕ}
    (hfuel : payloads.length < fuel) (out : List (List UInt8)) :
    execLoop reqID fuel out s = collect out payloads := by
  induction payloads generalizing s fuel out with
  | nil =>
    obtain ⟨fuel, rfl⟩ := Nat.exists_eq_add_one_of_ne_zero (Nat.ne_of_gt hfuel)
    have hempty : s = [] := by
      cases s with
      | nil => rfl
      | cons segment rest =>
        have hnil := List.flatten_eq_nil_iff.mp h.flatten segment List.mem_cons_self
        exact absurd hnil (h.segments segment List.mem_cons_self)
    subst hempty
    rfl
  | cons payload payloads ih =>
    obtain ⟨fuel, rfl⟩ := Nat.exists_eq_add_one_of_ne_zero (Nat.ne_of_gt (Nat.zero_lt_of_lt hfuel))
    obtain ⟨⟨hshort, hplain⟩, hrest⟩ := List.forall_mem_cons.mp hvalid
    rw [List.map_cons, List.flatMap_cons] at h
    rw [List.map_cons, whole] at hwhole
    cases hsizes : (takeWhole 4 (s.map List.length)).bind (takeWhole (payload.length + 10)) with
    | none =>
      rw [hsizes] at hwhole
      cases hwhole
    | some sizes' =>
      rw [hsizes] at hwhole
      obtain ⟨sizes, hheader, hbody⟩ := Option.bind_eq_some_iff.mp hsizes
      obtain ⟨s', hrecv, hs', rfl⟩ := recv_whole (p := ⟨reqID, typ, payload⟩) ⟨hshort, hplain⟩ h
        hheader hbody
      have hlater := @ih hrest s' hs' hwhole fuel (by simpa using hfuel)
      rw [execLoop, hrecv, collect]
      dsimp only
      by_cases hne : payload ≠ []
      · rw [if_pos ⟨rfl, hne⟩, if_pos hne, hlater]
      · rw [if_neg (fun h => hne h.2), if_neg hne, hlater]

theorem joinResponses_concat {out : List (List UInt8)} (hne : out ≠ []) (part : List UInt8) :
    joinResponses (out ++ [part]) = joinResponses out ++ 10 :: part := by
  unfold joinResponses
  induction out with
  | nil => exact absurd rfl hne
  | cons a out ih =>
    cases out with
    | nil => simp [List.intercalate]
    | cons b out =>
      have hlater := ih (List.cons_ne_nil _ _)
      simp only [List.intercalate, List.cons_append, List.intersperse_cons_cons, List.flatten_cons]
        at hlater ⊢
      rw [hlater]
      simp only [List.append_assoc, List.cons_append, List.nil_append]

/-- With a part behind others, what is returned has a line end more. -/
theorem collect_long (out : List (List UInt8)) (hne : out ≠ []) (text : List UInt8) :
    ∃ result, collect out (chunks text) = .ok result ∧
      (joinResponses out).length + text.length + (if text = [] then 0 else 1) ≤ result.length := by
  have hpos : out.length > 0 := List.length_pos_of_ne_nil hne
  induction text using chunks.induct generalizing out with
  | case1 text hshort =>
    rw [chunks, if_pos hshort]
    by_cases hempty : text = []
    · subst hempty
      refine ⟨joinResponses out, ?_, by simp⟩
      rw [collect, if_neg (fun h => h rfl), collect, if_pos hpos]
    · refine ⟨joinResponses (out ++ [text]), ?_, ?_⟩
      · rw [collect, if_pos hempty]
        split_ifs
        · rfl
        · rw [collect, if_pos (by simp)]
      · rw [joinResponses_concat hne, if_neg hempty, List.length_append, List.length_cons]
        omega
  | case2 text hlong ih =>
    have hlength : (text.take 4096).length = 4096 := by
      rw [List.length_take]
      omega
    have hfull : text.take 4096 ≠ [] := List.ne_nil_of_length_pos (by omega)
    obtain ⟨result, hresult, hle⟩ := ih (out ++ [text.take 4096]) (by simp) (by simp)
    refine ⟨result, ?_, ?_⟩
    · rw [chunks, if_neg hlong, collect, if_pos hfull, if_neg (by omega), hresult]
    · rw [joinResponses_concat hne, List.length_append, List.length_cons, hlength,
        List.length_drop] at hle
      split_ifs at hle ⊢ <;> omega

theorem chunks_flatten (text : List UInt8) : ∀ chunk ∈ chunks text,
    chunk.length ≤ 4096 ∧ ∀ b ∈ chunk, b ∈ text := by
  induction text using chunks.induct with
  | case1 text hshort =>
    rw [chunks, if_pos hshort]
    exact List.forall_mem_singleton.mpr ⟨hshort.le, fun b hb => hb⟩
  | case2 text hlong ih =>
    rw [chunks, if_neg hlong]
    refine List.forall_mem_cons.mpr ⟨⟨?_, fun b hb => List.mem_of_mem_take hb⟩, fun chunk hc => ?_⟩
    · rw [List.length_take]
      omega
    · exact ⟨(ih chunk hc).1, fun b hb => List.mem_of_mem_drop ((ih chunk hc).2 b hb)⟩

/-- A response that is not empty and fits one packet is what the loop returns. -/
theorem collect_iff (text : List UInt8) :
    collect [] (chunks text) = .ok text ↔ 0 < text.length ∧ text.length ≤ 4096 := by
  have hone : ∀ part, joinResponses [part] = part := fun part => by
    simp [joinResponses, List.intercalate]
  by_cases hshort : text.length < 4096
  · rw [chunks, if_pos hshort]
    by_cases hempty : text = []
    · subst hempty
      refine iff_of_false (fun h => ?_) (by simp)
      cases h
    · refine iff_of_true ?_ ⟨List.length_pos_of_ne_nil hempty, hshort.le⟩
      rw [collect, if_pos hempty, List.nil_append, hone]
      split_ifs
      · rfl
      · rw [collect, if_pos (by simp), hone]
  · have hlength : (text.take 4096).length = 4096 := by
      rw [List.length_take]
      omega
    have hfull : text.take 4096 ≠ [] := List.ne_nil_of_length_pos (by omega)
    have hcollect : collect [] (chunks text) =
        collect [text.take 4096] (chunks (text.drop 4096)) := by
      rw [chunks, if_neg hshort, collect, if_pos hfull, if_neg (by omega), List.nil_append]
    rw [hcollect]
    by_cases hexact : text.length = 4096
    · refine iff_of_true ?_ ⟨by omega, hexact.le⟩
      rw [List.drop_of_length_le hexact.le, List.take_of_length_le hexact.le, chunks,
        if_pos (by decide), collect, if_neg (fun h => h rfl), collect, if_pos (by simp), hone]
    · refine iff_of_false (fun h => ?_) (by omega)
      obtain ⟨result, hresult, hle⟩ := collect_long [text.take 4096] (by simp) (text.drop 4096)
      rw [h] at hresult
      obtain rfl := Except.ok.inj hresult
      have hmore : text.drop 4096 ≠ [] := List.ne_nil_of_length_pos (by
        rw [List.length_drop]
        omega)
      rw [hone, hlength, if_neg hmore, List.length_drop] at hle
      omega

/-- A response whose packets are read whole is returned as it was sent exactly when it is not empty and
fits one packet. -/
theorem exec_iff (reqID typ : Int32) (text : List UInt8) (hplain : 0 ∉ text) (s : Stream)
    (h : Delivers s ((response reqID typ text).flatMap Packet.encode))
    (hwhole : whole ((response reqID typ text).map fun p => p.payload.length) (s.map List.length)) :
    exec reqID s = .ok text ↔ 0 < text.length ∧ text.length ≤ 4096 := by
  have hvalid : ∀ payload ∈ chunks text, payload.length ≤ 4102 ∧ 0 ∉ payload := by
    intro payload hp
    obtain ⟨hlength, hmem⟩ := chunks_flatten text payload hp
    exact ⟨by omega, fun hzero => hplain (hmem 0 hzero)⟩
  have hfuel : (chunks text).length < s.flatten.length + 1 := by
    have hlong := List.length_le_sum_of_one_le ((chunks text).map fun p => p.length + 14) (by simp)
    rw [List.length_map] at hlong
    rw [h.flatten, encode_length, encodedLength, response, List.map_map, List.map_map]
    exact Nat.lt_succ_of_le hlong
  rw [response, List.map_map] at hwhole
  rw [exec, execLoop_whole hvalid h hwhole hfuel, collect_iff]

theorem exec_iff_one : exec 7 [putUint32 11, Packet.body ⟨7, 0, [97]⟩] = .ok [97] ↔
    0 < ([97] : List UInt8).length ∧ ([97] : List UInt8).length ≤ 4096 := by
  have hresponse : response 7 0 [97] = [⟨7, 0, [97]⟩] := by
    rw [response, chunks, if_pos (by decide)]
    rfl
  refine exec_iff 7 0 [97] (by decide) _ ⟨by decide, ?_⟩ ?_
  · rw [hresponse]
    rfl
  · rw [hresponse]
    rfl

/-- An empty response ends in an error. -/
theorem exec_empty : ∃ s, Delivers s ((response 7 0 []).flatMap Packet.encode) ∧
    whole ((response 7 0 []).map fun p => p.payload.length) (s.map List.length) ∧
      exec 7 s ≠ .ok [] := by
  have hresponse : response 7 0 [] = [⟨7, 0, []⟩] := by
    rw [response, chunks, if_pos (by decide)]
    rfl
  refine ⟨[putUint32 10, Packet.body ⟨7, 0, []⟩], ⟨by decide, ?_⟩, ?_, by decide⟩
  · rw [hresponse]
    rfl
  · rw [hresponse]
    rfl

end Mastermind.Agent.Rcon
