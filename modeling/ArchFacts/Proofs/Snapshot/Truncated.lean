import ArchFacts.Proofs.Snapshot.Decode

/-!
# Snapshots that are cut off

A reader that does not run out of bytes says the same when more bytes follow: it makes the same of
those it takes, and leaves the others (`Steady`). Readers that come one after another are steady if
each is (`Steady.bind`), so the reader of a store is (`steady_store`). Bytes that are cut off of a
part therefore make its reader run out of bytes: if it said anything else of them, it would say so
of the whole part too, but of that it leaves nothing (`Steady.endOfBytes`). Hence no snapshot that
is cut off is decoded, and its payload is always found to be too short, wherever the cut is
(`decode_extract_encode`).
-/

namespace ArchFacts.Snapshot

section
variable {α β : Type} {get : Get α} {bytes more : List UInt8}

/-- Whether a reader that does not run out of bytes says the same when more bytes follow, and leaves
those. -/
def Steady (get : Get α) : Prop :=
  ∀ bytes more, get bytes = .error .endOfBytes ∨
    get (bytes ++ more) = (get bytes).map fun x => (x.1, x.2 ++ more)

/-! ## Readers in a row -/

/-- What reads nothing is steady. -/
theorem Steady.pure (a : α) : Steady fun bytes => .ok (a, bytes) := fun _ _ => .inr rfl

/-- What refuses all bytes is steady. -/
theorem Steady.throw (e : PayloadProblem) : Steady (α := α) fun _ => .error e :=
  fun _ _ => .inr rfl

/-- Two steady readers, one after the other, are steady. -/
theorem Steady.bind {next : α × List UInt8 → Except PayloadProblem (β × List UInt8)}
    (h : Steady get) (hnext : ∀ a, Steady fun rest => next (a, rest)) :
    Steady fun bytes => get bytes >>= next := by
  intro bytes more
  dsimp only
  rcases h bytes more with hend | hsame
  · left
    rw [hend, error_bind]
  · rw [hsame]
    cases get bytes with
    | error e => exact .inr rfl
    | ok x => exact hnext x.1 x.2 more

/-! ## The readers of parts -/

/-- A number ends at the first byte that has no mark to go on, so what follows does not count. If
there is no such byte within the width, the number is too long or the bytes have come to an end. -/
theorem steady_numberFrom (lastByte : UInt8) (n : Nat) : Steady (getNumberFrom lastByte n) := by
  induction n with
  | zero => exact .throw _
  | succ n ih =>
    intro bytes more
    cases bytes with
    | nil => exact .inl rfl
    | cons b bytes =>
      rw [List.cons_append, getNumberFrom, getNumberFrom]
      by_cases hlast : b < 128
      · right
        rw [if_pos hlast, if_pos hlast]
        split <;> rfl
      · rw [if_neg hlast, if_neg hlast]
        rcases ih bytes more with hend | hsame
        · left
          rw [hend]
        · right
          rw [hsame]
          cases getNumberFrom lastByte n bytes <;> rfl

theorem steady_number (w : Width) : Steady (getNumber w) := steady_numberFrom _ _

/-- As many bytes as are asked for are taken from the front. -/
theorem steady_bytes (n : Nat) : Steady (getBytes n) := by
  intro bytes more
  simp only [getBytes, List.splitAt_eq]
  by_cases hn : n ≤ bytes.length
  · right
    simp [List.take_append_of_le_length hn, List.drop_append_of_le_length hn, hn, Except.map]
  · left
    rw [if_neg]
    rw [List.length_take]
    omega

/-- A text is as long as the number before it says, and is refused for its own bytes only. -/
theorem steady_text : Steady getText := by
  refine (steady_number count).bind fun n => (steady_bytes n).bind fun taken => ?_
  dsimp only
  cases String.fromUTF8? ⟨taken.toArray⟩ with
  | some s => exact .pure s
  | none => exact .throw _

/-- A truth value is the first byte. -/
theorem steady_bool : Steady getBool := by
  intro bytes more
  cases bytes with
  | nil => exact .inl rfl
  | cons b bytes =>
    right
    rw [List.cons_append, getBool, getBool]
    split
    · rfl
    · split <;> rfl

/-- A choice is the number before it, which is refused if it stands for nothing. -/
theorem steady_choice (choices : List α) : Steady (getChoice choices) := by
  refine (steady_number choice).bind fun n => ?_
  dsimp only
  cases choices[n]? with
  | some a => exact .pure a
  | none => exact .throw _

/-- A reader that is steady may be repeated. -/
theorem steady_many (h : Steady get) (before : List α) (n : Nat) :
    Steady (getMany get before n) := by
  induction n generalizing before with
  | zero => exact .pure _
  | succ n ih =>
    have hmany : getMany get before (n + 1) =
        fun bytes => get bytes >>= fun x => getMany get (x.1 :: before) n x.2 := by
      funext bytes
      rw [getMany]
      cases get bytes <;> rfl
    rw [hmany]
    exact h.bind fun a => ih (a :: before)

/-- A list is as long as the number before it says. -/
theorem steady_list (h : Steady get) : Steady (getList get) :=
  (steady_number count).bind fun n => steady_many h [] n

/-- A key and its values. -/
theorem steady_entry : Steady getEntry :=
  steady_text.bind fun _ => (steady_list steady_text).bind fun _ => .pure _

theorem steady_attributes : Steady getAttributes :=
  (steady_list steady_entry).bind fun _ => .pure _

/-- The id, the name, the kind and the attributes of an entity. -/
theorem steady_node : Steady getNode :=
  steady_text.bind fun _ => steady_text.bind fun _ => (steady_choice _).bind fun _ =>
    steady_attributes.bind fun _ => .pure _

/-- The ends, the kind, the mark and the attributes of a relation. -/
theorem steady_edge : Steady getEdge :=
  steady_text.bind fun _ => steady_text.bind fun _ => (steady_choice _).bind fun _ =>
    steady_bool.bind fun _ => steady_attributes.bind fun _ => .pure _

/-- The reader of a store is steady. -/
theorem steady_store : Steady getStore :=
  (steady_list steady_node).bind fun _ => (steady_list steady_edge).bind fun _ => .pure _

/-! ## What is cut off -/

/-- A steady reader that leaves nothing of some bytes runs out of bytes if they are cut off. -/
theorem Steady.endOfBytes (h : Steady get) {whole : List UInt8} {a : α}
    (hwhole : get whole = .ok (a, [])) (hcut : bytes <+: whole) (hne : bytes ≠ whole) :
    get bytes = .error .endOfBytes := by
  obtain ⟨more, rfl⟩ := hcut
  rcases h bytes more with hend | hsame
  · exact hend
  -- Otherwise the reader would leave the bytes that are cut off.
  · obtain ⟨x, -, hx⟩ := map_eq_ok_iff.1 (hsame.symm.trans hwhole)
    have hnil : x.2 ++ more = [] := congrArg Prod.snd hx
    rw [List.append_eq_nil_iff] at hnil
    rw [hnil.2, List.append_nil] at hne
    exact absurd rfl hne

end

section
variable {s : Store} {k : Nat}

/-- What is wrong with the first `k` bytes of a snapshot that has more. -/
def cutProblem (k : Nat) : Problem :=
  if sizeLimit < k then .tooLarge k
  else if k < headerSize then .tooShort k
  else .corrupt .endOfBytes

/-- Fewer bytes than a header has are no header. -/
theorem Header.ofBytes_of_length_lt {bytes : List UInt8} (h : bytes.length < headerSize) :
    Header.ofBytes bytes = .error (.tooShort bytes.length) := by
  unfold ofBytes
  split
  · simp only [List.length_cons, headerSize] at h
    omega
  · rfl

/-- After the header, a payload that cannot be read is reported. -/
theorem ofBytes_of_getStore_eq_error {payload : List UInt8} {problem : PayloadProblem}
    (h : getStore payload = .error problem) :
    ofBytes (Header.current.toBytes ++ payload) = .error (.corrupt problem) := by
  have hheader : Header.ofBytes (Header.current.toBytes ++ payload) =
    .ok (Header.current, payload) := rfl
  have hproblem : Header.current.problem? = none := by decide
  simp only [ofBytes, hheader, ok_bind, hproblem, h]
  rfl

/-- The bytes of a store, cut off, are too short for a header or end too soon. -/
theorem ofBytes_take (hk : k < (toBytes s).length) (hsize : (toBytes s).length < 2 ^ 64) :
    ofBytes ((toBytes s).take k) =
      .error (if k < headerSize then .tooShort k else .corrupt .endOfBytes) := by
  have htake : ((toBytes s).take k).length = k := by rw [List.length_take]; omega
  split
  · next hheader =>
    rw [ofBytes, Header.ofBytes_of_length_lt (by omega), error_bind, htake]
  · next hheader =>
    have hcurrent : Header.current.toBytes.length = headerSize := rfl
    rw [toBytes, List.length_append] at hk hsize
    have hwhole : getStore (putStore s) = .ok (.ofLists s.nodeList s.edgeList, []) := by
      have hread := getStore_putStore (s := s) (by omega) []
      rwa [List.append_nil] at hread
    have hne : (putStore s).take (k - headerSize) ≠ putStore s := by
      intro hall
      have hpayload := congrArg List.length hall
      rw [List.length_take] at hpayload
      omega
    rw [toBytes, List.take_append, List.take_of_length_le (by omega), hcurrent]
    exact ofBytes_of_getStore_eq_error
      (steady_store.endOfBytes hwhole (List.take_prefix _ _) hne)

/-- **A snapshot that is cut off is not decoded.** Wherever a snapshot is cut, within its header, a
number, a text, or between two items, what is left is not decoded to any store, and the error says
that it is too large, that it is too short for a header, or that its payload ends too soon. The
counts of the snapshot must have their width of 64 bits. -/
theorem decode_extract_encode (hk : k < (encode s).size) (hsize : (encode s).size < 2 ^ 64) :
    decode ((encode s).extract 0 k) = .error (.serialization (cutProblem k).message) := by
  have hcut : ((encode s).extract 0 k).data.toList = (toBytes s).take k := by simp [encode]
  have hcutSize : ((encode s).extract 0 k).size = k := by
    rw [ByteArray.size_extract]
    omega
  rw [decode, hcut, hcutSize]
  by_cases hlimit : sizeLimit < k
  · rw [if_pos hlimit, cutProblem, if_pos hlimit]
    rfl
  · rw [if_neg hlimit, ofBytes_take hk hsize, cutProblem, if_neg hlimit]
    rfl

/-- What is left if `disorderly` is cut after the first of its two relations. -/
theorem decode_extract_encode_disorderly :
    14 < (encode (.ofLists [] disorderly)).size ∧
      (encode (.ofLists [] disorderly)).size < 2 ^ 64 ∧
      decode ((encode (.ofLists [] disorderly)).extract 0 14) =
        .error (.serialization (cutProblem 14).message) := by
  have hk : 14 < (encode (.ofLists [] disorderly)).size := by
    rw [encode_disorderly]
    decide
  have hsize : (encode (.ofLists [] disorderly)).size < 2 ^ 64 := by
    rw [encode_disorderly]
    decide
  exact ⟨hk, hsize, decode_extract_encode hk hsize⟩

end

end ArchFacts.Snapshot
