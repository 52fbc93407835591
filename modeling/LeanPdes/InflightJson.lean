import LeanPdes.CText
import LeanPdes.Message

/-! The packets in flight and the file that keeps them over a checkpoint. The file is JSON, but the
loader only moves a cursor from key to key and, within the data of an entry, from comma to comma. -/

namespace LeanPdes

open Words CText

/-- A packet in flight and its raw delivery time. -/
structure ScheduledMessage where
  msg : Message
  scheduledTimeNs : Int
  scheduledTimeNs_ge : -2 ^ 63 ≤ scheduledTimeNs
  scheduledTimeNs_lt : scheduledTimeNs < 2 ^ 63
  deriving DecidableEq

/-- The list `pending_messages`, the newest entry first, and its counter. -/
structure PendingMessages where
  messages : List ScheduledMessage
  pendingCount : Nat
  pendingCount_eq : pendingCount = messages.length

def PendingMessages.empty : PendingMessages := ⟨[], 0, rfl⟩

/-- `pdes_inflight_add`. -/
def pdesInflightAdd (p : PendingMessages) (entry : ScheduledMessage) : PendingMessages where
  messages := entry :: p.messages
  pendingCount := p.pendingCount + 1
  pendingCount_eq := by rw [p.pendingCount_eq, List.length_cons]

/-- The line of a key and its value. -/
def saveField (key : String) (value : List Char) : List Char :=
  "      ".toList ++ key.toList ++ " ".toList ++ value ++ ",\n".toList

/-- The data bytes from index `j` on, out of `len`. -/
def saveData (len : Nat) : Nat → List UInt8 → List Char
  | _, [] => []
  | j, byte :: bytes =>
      printUnsigned byte.toNat ++ (if j < len - 1 then ", ".toList else []) ++
        saveData len (j + 1) bytes

def saveEntry (e : ScheduledMessage) (comma : Bool) : List Char :=
  "    \x7b\n".toList ++
    saveField "\"scheduled_time_ns\":" (printSigned e.scheduledTimeNs) ++
    saveField "\"timestamp_ns\":" (printUnsigned e.msg.tsNs) ++
    saveField "\"type\":" (printUnsigned e.msg.type.toNat) ++
    saveField "\"len\":" (printUnsigned e.msg.len) ++
    "      \"data\": [".toList ++ saveData e.msg.len 0 (e.msg.bytes 0 e.msg.len) ++ "]\n".toList ++
    "    \x7d".toList ++ (if comma then ",".toList else []) ++ "\n".toList

/-- The entries from index `i` on, out of `count`. -/
def saveEntries (count : Nat) : Nat → List ScheduledMessage → List Char
  | _, [] => []
  | i, e :: entries => saveEntry e (i < count - 1) ++ saveEntries count (i + 1) entries

/-- The lines before the first entry. -/
def fileStart : List Char := "\x7b\n  \"inflight_messages\": [\n".toList

/-- The lines after the last entry. -/
def fileEnd : List Char := "  ]\n\x7d\n".toList

/-- The text that `pdes_inflight_save_json` writes. -/
def pdesInflightSaveJson (p : PendingMessages) : List Char :=
  fileStart ++ saveEntries p.pendingCount 0 p.messages ++ fileEnd

/-- What stops the loader: a search or a scan from a null pointer, a value that was never read, a
byte outside the data of a message. -/
inductive LoadFault
  | nullCursor
  | uninitialized
  | outOfBounds
  deriving DecidableEq, Repr

/-- The text at a pointer that is used. -/
def cursor : Option (List Char) → Except LoadFault (List Char)
  | some text => .ok text
  | none => .error .nullCursor

/-- A value that `sscanf` stored. -/
def scanned {α : Type} : Option α → Except LoadFault α
  | some value => .ok value
  | none => .error .uninitialized

/-- `sscanf` with a format of the key, a space and a number. -/
def scanField {α : Type} (key : String) (scan : List Char → Option α) (ptr : List Char) :
    Except LoadFault α :=
  scanned ((scanLiteral (key.toList ++ [' ']) ptr).bind scan)

/-- The loop over the data bytes, with the cursor after it. -/
def loadData : Nat → Option (List Char) → Except LoadFault (List UInt8 × Option (List Char))
  | 0, ptr => .ok ([], ptr)
  | len + 1, ptr => do
      let text ← cursor ptr
      let byte ← scanned (scanUInt32 text)
      let (data, ptr) ← loadData len ((strchr ',' text).map (·.drop 1))
      return (UInt8.ofNat byte :: data, ptr)

/-- One round of the loop over the entries. -/
def loadEntry (ptr : List Char) : Except LoadFault (ScheduledMessage × Option (List Char)) := do
  let scheduledTime ← scanField "\"scheduled_time_ns\":" scanInt64 ptr
  let ptr ← cursor (strstr "\"timestamp_ns\":".toList ptr)
  let timestamp ← scanField "\"timestamp_ns\":" scanUInt64 ptr
  let ptr ← cursor (strstr "\"type\":".toList ptr)
  let type ← scanField "\"type\":" scanUInt32 ptr
  let ptr ← cursor (strstr "\"len\":".toList ptr)
  let len ← scanField "\"len\":" scanUInt32 ptr
  let ptr ← cursor (strstr "\"data\": [".toList ptr)
  let (data, ptr) ← loadData len (some (ptr.drop "\"data\": [".length))
  if h : len ≤ maxMsgSize ∧ data.length ≤ maxMsgSize then
    return ({
      msg := {
        tsNs := uint64 timestamp, len, data, type := UInt8.ofNat type
        tsNs_lt := uint64_lt timestamp, len_le := h.1, data_le := h.2 }
      scheduledTimeNs := int64 scheduledTime
      scheduledTimeNs_ge := int64_ge scheduledTime
      scheduledTimeNs_lt := int64_lt scheduledTime }, ptr)
  else .error .outOfBounds

theorem length_loadData_le {len : Nat} {ptr next : Option (List Char)} {data : List UInt8}
    (h : loadData len ptr = .ok (data, next)) :
    ∀ text' ∈ next, ∃ text ∈ ptr, text'.length ≤ text.length := by
  induction len generalizing ptr data with
  | zero =>
      cases h
      exact fun text' htext => ⟨text', htext, le_rfl⟩
  | succ len ih =>
      cases ptr with
      | none => cases h
      | some text =>
          obtain ⟨_, htext, h⟩ := bind_eq_ok.mp h
          cases htext
          obtain ⟨byte, _, h⟩ := bind_eq_ok.mp h
          obtain ⟨⟨data', next'⟩, hrest, h⟩ := bind_eq_ok.mp h
          cases h
          intro text' htext'
          obtain ⟨found, hfound, hle⟩ := ih hrest text' htext'
          obtain ⟨comma, hcomma, rfl⟩ := Option.map_eq_some_iff.mp hfound
          have hcomma' := length_strchr_le hcomma
          rw [List.length_drop] at hle
          exact ⟨text, rfl, by omega⟩

/-- Each round moves the cursor on. -/
theorem length_loadEntry_lt {ptr : List Char} {e : ScheduledMessage} {next : Option (List Char)}
    (h : loadEntry ptr = .ok (e, next)) : ∀ text ∈ next, text.length < ptr.length := by
  have of_cursor {x : Option (List Char)} {text : List Char} (hx : cursor x = .ok text) :
      x = some text := by
    cases x <;> cases hx
    rfl
  obtain ⟨_, _, h⟩ := bind_eq_ok.mp h
  obtain ⟨ptr₁, h₁, h⟩ := bind_eq_ok.mp h
  obtain ⟨_, _, h⟩ := bind_eq_ok.mp h
  obtain ⟨ptr₂, h₂, h⟩ := bind_eq_ok.mp h
  obtain ⟨_, _, h⟩ := bind_eq_ok.mp h
  obtain ⟨ptr₃, h₃, h⟩ := bind_eq_ok.mp h
  obtain ⟨_, _, h⟩ := bind_eq_ok.mp h
  obtain ⟨ptr₄, h₄, h⟩ := bind_eq_ok.mp h
  obtain ⟨⟨data, next'⟩, hdata, h⟩ := bind_eq_ok.mp h
  dsimp only at h
  split_ifs at h
  cases h
  have hle₁ := length_strstr_le (of_cursor h₁)
  have hle₂ := length_strstr_le (of_cursor h₂)
  have hle₃ := length_strstr_le (of_cursor h₃)
  have hle₄ := length_strstr_le (of_cursor h₄)
  have hkey := (prefix_of_strstr (of_cursor h₄)).length_le
  have hpos : "\"data\": [".toList.length = 9 := by decide
  have hpos' : "\"data\": [".length = 9 := by decide
  intro text htext
  obtain ⟨start, hstart, hle⟩ := length_loadData_le hdata text htext
  cases hstart
  rw [List.length_drop, hpos'] at hle
  omega

/-- The length of the text a pointer can still move over. -/
def cursorLength : Option (List Char) → Nat
  | some text => text.length + 1
  | none => 0

/-- The loop over the entries. -/
def loadEntries (ptr : Option (List Char)) : Except LoadFault (List ScheduledMessage) :=
  match ptr with
  | none => .error .nullCursor
  | some text =>
      match _hfind : strstr "\"scheduled_time_ns\":".toList text with
      | none => .ok []
      | some entry =>
          match _hload : loadEntry entry with
          | .error fault => .error fault
          | .ok (e, next) => (loadEntries next).map (e :: ·)
termination_by cursorLength ptr
decreasing_by
  have hle := length_strstr_le _hfind
  have hlt := length_loadEntry_lt _hload
  cases next with
  | none => exact Nat.succ_pos _
  | some text' =>
      have := hlt text' rfl
      simp only [cursorLength]
      omega

/-- `pdes_inflight_load_json` on the content of its file. -/
def pdesInflightLoadJson (content : List Char) : Except LoadFault (List ScheduledMessage) :=
  loadEntries (some content)

/-! ### Loading what was saved -/

theorem endsNumber_comma (rest : List Char) : EndsNumber (',' :: rest) := by
  rintro c ⟨⟩
  decide

theorem endsNumber_bracket (rest : List Char) : EndsNumber (']' :: rest) := by
  rintro c ⟨⟩
  decide

/-- A field of the file and what follows it. -/
def fieldText (key value rest : List Char) : List Char :=
  key ++ ' ' :: (value ++ ',' :: '\n' :: ("      ".toList ++ rest))

/-- The value of the field at the cursor is read back. -/
theorem scanField_fieldText {α : Type} {key : String} {scan : List Char → Option α} {x : α}
    (hkey : key.toList.any isSpace = false)
    (hscan : ∀ text, scan (text.dropWhile isSpace) = scan text) {value : List Char}
    (hvalue : ∀ rest, EndsNumber rest → scan (value ++ rest) = some x) (rest : List Char) :
    scanField key scan (fieldText key.toList value rest) = .ok x := by
  have hplain : ∀ c ∈ key.toList, isSpace c = false := by simpa using hkey
  rw [scanField, fieldText, scanLiteral_key hplain, Option.bind_some, hscan,
    hvalue _ (endsNumber_comma _)]
  rfl

/-- The search for the next key passes over the field at the cursor. -/
theorem strstr_fieldText {key next value : List Char} (hnext : next.head? = some '"')
    (hkey : absent next key = true) (hvalue : '"' ∉ value) (rest : List Char) :
    strstr next (fieldText key value (next ++ rest)) = some (next ++ rest) := by
  obtain ⟨tail, rfl⟩ := List.head?_eq_some_iff.mp hnext
  have htail : absent ('"' :: tail) (' ' :: (value ++ ',' :: '\n' :: "      ".toList)) = true := by
    refine absent_of_not_mem ?_
    simp [hvalue]
  have htext : fieldText key value ('"' :: tail ++ rest) =
      (key ++ ' ' :: (value ++ ',' :: '\n' :: "      ".toList)) ++ ('"' :: tail ++ rest) := by
    simp only [fieldText, List.append_assoc, List.cons_append]
  rw [htext, strstr_skip (absent_append hkey htail), strstr_self (List.cons_ne_nil _ _)]

/-- What the file holds after the data of an entry. -/
def entryEnd (comma : Bool) (rest : List Char) : List Char :=
  ']' :: '\n' :: ("    \x7d".toList ++ ((if comma then ",".toList else []) ++ '\n' :: rest))

theorem entryEnd_eq (comma : Bool) (rest : List Char) :
    entryEnd comma rest = entryEnd comma [] ++ rest := by
  unfold entryEnd
  simp only [List.append_assoc, List.cons_append, List.nil_append]

theorem not_mem_entryEnd (comma : Bool) : '"' ∉ entryEnd comma [] := by
  cases comma <;> decide

/-- Between two entries there is a comma. -/
theorem strchr_entryEnd (rest : List Char) :
    (strchr ',' (entryEnd true rest)).map (·.drop 1) = some (['\n'] ++ rest) := rfl

theorem scanUInt32_byte (byte : UInt8) {space rest : List Char} (hspace : ∀ c ∈ space, isSpace c)
    (hrest : EndsNumber rest) :
    scanUInt32 (space ++ (printUnsigned byte.toNat ++ rest)) = some byte.toNat := by
  have hbyte : byte.toNat < 2 ^ 32 := byte.toNat_lt.trans (by decide)
  have hvalue := scanUInt32_print hbyte hrest
  rw [← scanUInt32_dropWhile, List.dropWhile_append_of_pos hspace, scanUInt32_dropWhile, hvalue]

/-- The bytes are read back. The cursor moves to the next comma after each of them, also after the
last one. -/
theorem loadData_saveData {len j : Nat} {bytes : List UInt8} (hlen : j + bytes.length = len)
    {space rest : List Char} (hspace : ∀ c ∈ space, isSpace c) (hrest : EndsNumber rest) :
    loadData bytes.length (some (space ++ (saveData len j bytes ++ rest))) =
      .ok (bytes, if bytes.isEmpty then some (space ++ rest) else (strchr ',' rest).map (·.drop 1)) := by
  have hcomma : ',' ∉ space := fun hmem => absurd (hspace _ hmem) (by decide)
  have hdigits (byte : UInt8) : ',' ∉ printUnsigned byte.toNat :=
    not_mem_printUnsigned (by decide) byte.toNat
  induction bytes generalizing j space with
  | nil => rfl
  | cons byte bytes ih =>
      cases bytes with
      | nil =>
          have hlast : ¬j < len - 1 := by
            rw [List.length_singleton] at hlen
            omega
          have hscan := scanUInt32_byte byte hspace hrest
          simp only [saveData, if_neg hlast, List.append_nil]
          simp only [List.length_singleton, loadData, cursor, scanned, hscan, bind, Except.bind]
          rw [strchr_skip hcomma, strchr_skip (hdigits byte)]
          simp only [UInt8.ofNat_toNat]
          rfl
      | cons byte' bytes =>
          have hmore : j < len - 1 := by
            simp only [List.length_cons] at hlen
            omega
          have hspace' : ∀ c ∈ [' '], isSpace c := by simp [isSpace]
          have hih := ih (j := j + 1) (by simp only [List.length_cons] at hlen ⊢; omega) hspace'
            (by decide)
          have htext : saveData len j (byte :: byte' :: bytes) ++ rest =
              printUnsigned byte.toNat ++
                ',' :: ([' '] ++ (saveData len (j + 1) (byte' :: bytes) ++ rest)) := by
            rw [saveData, if_pos hmore, List.append_assoc, List.append_assoc]
            rfl
          have hscan := scanUInt32_byte byte hspace
            (endsNumber_comma ([' '] ++ (saveData len (j + 1) (byte' :: bytes) ++ rest)))
          rw [htext, List.length_cons, loadData]
          simp only [cursor, scanned, hscan, bind, Except.bind]
          rw [strchr_skip hcomma, strchr_skip (hdigits byte), strchr, if_pos rfl, Option.map_some,
            List.drop_one, List.tail_cons, hih]
          simp only [UInt8.ofNat_toNat]
          rfl

/-- An entry of the file from its first key on, and what follows it. -/
def entryText (e : ScheduledMessage) (comma : Bool) (rest : List Char) : List Char :=
  fieldText "\"scheduled_time_ns\":".toList (printSigned e.scheduledTimeNs) <|
    fieldText "\"timestamp_ns\":".toList (printUnsigned e.msg.tsNs) <|
      fieldText "\"type\":".toList (printUnsigned e.msg.type.toNat) <|
        fieldText "\"len\":".toList (printUnsigned e.msg.len) <|
          "\"data\": [".toList ++
            (saveData e.msg.len 0 (e.msg.bytes 0 e.msg.len) ++ entryEnd comma rest)

theorem saveEntry_append (e : ScheduledMessage) (comma : Bool) (rest : List Char) :
    saveEntry e comma ++ rest = "    \x7b\n      ".toList ++ entryText e comma rest := by
  have hopen : "    \x7b\n      ".toList = "    \x7b\n".toList ++ "      ".toList := by decide
  have hdata : "      \"data\": [".toList = "      ".toList ++ "\"data\": [".toList := by decide
  have hspace : " ".toList = [' '] := by decide
  have hcomma : ",\n".toList = [',', '\n'] := by decide
  have hbracket : "]\n".toList = [']', '\n'] := by decide
  have hnewline : "\n".toList = ['\n'] := by decide
  unfold saveEntry saveField entryText fieldText entryEnd
  simp only [hopen, hdata, hspace, hcomma, hbracket, hnewline, List.append_assoc, List.cons_append,
    List.nil_append]

/-- The entry with nothing after the first `len` data bytes. -/
def ScheduledMessage.loaded (e : ScheduledMessage) : ScheduledMessage :=
  { e with
    msg := { e.msg with
      data := e.msg.bytes 0 e.msg.len
      data_le := by rw [Message.bytes, length_readBytes]; exact e.msg.len_le } }

theorem endsNumber_entryEnd (comma : Bool) (rest : List Char) : EndsNumber (entryEnd comma rest) := by
  rw [entryEnd]
  exact endsNumber_bracket _

theorem loadEntry_entryText (e : ScheduledMessage) (comma : Bool) (rest : List Char) :
    loadEntry (entryText e comma rest) = .ok (e.loaded,
      if e.msg.len = 0 then some (entryEnd comma rest)
      else (strchr ',' (entryEnd comma rest)).map (·.drop 1)) := by
  have hquote (n : Nat) : '"' ∉ printUnsigned n := not_mem_printUnsigned (by decide) n
  have hlen : e.msg.len < 2 ^ 32 := lt_of_le_of_lt e.msg.len_le (by decide)
  have htype : e.msg.type.toNat < 2 ^ 32 := e.msg.type.toNat_lt.trans (by decide)
  have hbytes : (e.msg.bytes 0 e.msg.len).length = e.msg.len := length_readBytes ..
  have hwhole : 0 + (e.msg.bytes 0 e.msg.len).length = e.msg.len := by rw [hbytes, Nat.zero_add]
  have hspace : ∀ c ∈ ([] : List Char), isSpace c := by simp
  have hdata := loadData_saveData hwhole hspace (endsNumber_entryEnd comma rest)
  refine bind_eq_ok.mpr ⟨e.scheduledTimeNs, scanField_fieldText (by decide) scanInt64_dropWhile
    (fun rest => scanInt64_print e.scheduledTimeNs_ge e.scheduledTimeNs_lt) _, ?_⟩
  refine bind_eq_ok.mpr ⟨_, congrArg cursor (strstr_fieldText rfl (by decide)
    (not_mem_printSigned (by decide) (by decide) _) _), ?_⟩
  refine bind_eq_ok.mpr ⟨e.msg.tsNs, scanField_fieldText (by decide) scanUInt64_dropWhile
    (fun rest => scanUInt64_print e.msg.tsNs_lt) _, ?_⟩
  refine bind_eq_ok.mpr ⟨_, congrArg cursor (strstr_fieldText rfl (by decide) (hquote _) _), ?_⟩
  refine bind_eq_ok.mpr ⟨e.msg.type.toNat, scanField_fieldText (by decide) scanUInt32_dropWhile
    (fun rest => scanUInt32_print htype) _, ?_⟩
  refine bind_eq_ok.mpr ⟨_, congrArg cursor (strstr_fieldText rfl (by decide) (hquote _) _), ?_⟩
  refine bind_eq_ok.mpr ⟨e.msg.len, scanField_fieldText (by decide) scanUInt32_dropWhile
    (fun rest => scanUInt32_print hlen) _, ?_⟩
  refine bind_eq_ok.mpr ⟨_, congrArg cursor (strstr_fieldText rfl (by decide) (hquote _) _), ?_⟩
  have hempty : (e.msg.bytes 0 e.msg.len).isEmpty = true ↔ e.msg.len = 0 := by
    rw [List.isEmpty_iff_length_eq_zero, hbytes]
  have hts : uint64 (e.msg.tsNs : Int) = e.msg.tsNs := by
    have := e.msg.tsNs_lt
    rw [uint64]
    omega
  rw [hbytes, List.nil_append, List.nil_append, if_congr hempty rfl rfl] at hdata
  have hskip (text : List Char) :
      ("\"data\": [".toList ++ text).drop "\"data\": [".length = text := List.drop_left ..
  rw [hskip]
  refine bind_eq_ok.mpr ⟨_, hdata, ?_⟩
  have hfits : e.msg.len ≤ maxMsgSize ∧ (e.msg.bytes 0 e.msg.len).length ≤ maxMsgSize :=
    ⟨e.msg.len_le, hbytes.le.trans e.msg.len_le⟩
  simp only [dif_pos hfits, hts, UInt8.ofNat_toNat,
    int64_eq_self e.scheduledTimeNs_ge e.scheduledTimeNs_lt]
  rfl

theorem loadEntries_of_none {text : List Char}
    (hfind : strstr "\"scheduled_time_ns\":".toList text = none) :
    loadEntries (some text) = .ok [] := by
  rw [loadEntries]
  split
  · rfl
  · rename_i heq
    rw [hfind] at heq
    cases heq

theorem loadEntries_of_entry {text entry : List Char} {e : ScheduledMessage}
    {next : Option (List Char)}
    (hfind : strstr "\"scheduled_time_ns\":".toList text = some entry)
    (hload : loadEntry entry = .ok (e, next)) :
    loadEntries (some text) = (loadEntries next).map (e :: ·) := by
  rw [loadEntries]
  split
  · rename_i heq
    rw [hfind] at heq
    cases heq
  · rename_i heq
    rw [hfind] at heq
    cases heq
    split
    · rename_i heq
      rw [hload] at heq
      cases heq
    · rename_i heq
      rw [hload] at heq
      cases heq
      rfl

theorem loadEntries_null : loadEntries none = .error .nullCursor := by
  rw [loadEntries]

/-- The last entry, if there is one, has no data. -/
def EndsEmpty (entries : List ScheduledMessage) : Prop := ∀ e ∈ entries.getLast?, e.msg.len = 0

instance (entries : List ScheduledMessage) : Decidable (EndsEmpty entries) :=
  inferInstanceAs (Decidable (∀ e ∈ entries.getLast?, e.msg.len = 0))

theorem endsEmpty_singleton {e : ScheduledMessage} : EndsEmpty [e] ↔ e.msg.len = 0 := by
  simp [EndsEmpty]

theorem endsEmpty_cons_cons {e e' : ScheduledMessage} {entries : List ScheduledMessage} :
    EndsEmpty (e :: e' :: entries) ↔ EndsEmpty (e' :: entries) := by
  rw [EndsEmpty, EndsEmpty, List.getLast?_cons_cons]

theorem endsEmpty_cons {e : ScheduledMessage} {entries : List ScheduledMessage}
    (h : e.msg.len = 0) : EndsEmpty (e :: entries) ↔ EndsEmpty entries := by
  cases entries with
  | nil => simp [EndsEmpty, h]
  | cons e' entries => exact endsEmpty_cons_cons

/-- The loader gets through the entries that the writer wrote. Behind the data of the last one there
is no comma, and the next search starts from the null pointer. -/
theorem loadEntries_saveEntries {count i : Nat} {entries : List ScheduledMessage}
    (hcount : i + entries.length = count) {gap : List Char}
    (hgap : absent "\"scheduled_time_ns\":".toList gap = true) :
    loadEntries (some (gap ++ (saveEntries count i entries ++ fileEnd))) =
      if EndsEmpty entries then .ok (entries.map ScheduledMessage.loaded)
      else .error .nullCursor := by
  induction entries generalizing i gap with
  | nil =>
      have hend : absent "\"scheduled_time_ns\":".toList fileEnd = true := by decide
      rw [saveEntries, List.nil_append,
        loadEntries_of_none (strstr_none (by decide) (absent_append hgap hend))]
      rfl
  | cons e entries ih =>
      have hlen : i + 1 + entries.length = count := by
        rw [List.length_cons] at hcount
        omega
      have htext : saveEntries count i (e :: entries) ++ fileEnd =
          "    \x7b\n      ".toList ++
            entryText e (i < count - 1) (saveEntries count (i + 1) entries ++ fileEnd) := by
        rw [saveEntries, List.append_assoc, saveEntry_append]
      have hfind (comma : Bool) (rest : List Char) :
          strstr "\"scheduled_time_ns\":".toList
            (gap ++ ("    \x7b\n      ".toList ++ entryText e comma rest)) =
              some (entryText e comma rest) := by
        rw [strstr_skip hgap, strstr_skip (by decide)]
        exact strstr_self (by decide) _
      rw [htext, loadEntries_of_entry (hfind _ _) (loadEntry_entryText e _ _)]
      have hmap (l : List ScheduledMessage) :
          (if EndsEmpty l then Except.ok (entries.map ScheduledMessage.loaded)
            else .error LoadFault.nullCursor).map (e.loaded :: ·) =
          if EndsEmpty l then .ok ((e :: entries).map ScheduledMessage.loaded)
            else .error .nullCursor := by
        split_ifs <;> rfl
      by_cases hempty : e.msg.len = 0
      · -- the cursor has stayed before the end of the entry
        rw [if_pos hempty, entryEnd_eq, ih hlen (absent_of_not_mem (not_mem_entryEnd _)), hmap,
          if_congr (endsEmpty_cons hempty) rfl rfl]
      · rw [if_neg hempty]
        cases entries with
        | nil =>
            have hlast : decide (i < count - 1) = false := by
              rw [List.length_singleton] at hcount
              simp only [decide_eq_false_iff_not]
              omega
            have hnull : (strchr ',' (entryEnd false fileEnd)).map (·.drop 1) = none := rfl
            rw [hlast, saveEntries, List.nil_append, hnull, loadEntries_null,
              if_neg (mt endsEmpty_singleton.mp hempty)]
            rfl
        | cons e' entries =>
            have hmore : decide (i < count - 1) = true := by
              simp only [List.length_cons] at hcount
              simp only [decide_eq_true_eq]
              omega
            rw [hmore, strchr_entryEnd, ih hlen (by decide), hmap,
              if_congr endsEmpty_cons_cons rfl rfl]

theorem load_save (p : PendingMessages) :
    pdesInflightLoadJson (pdesInflightSaveJson p) =
      if EndsEmpty p.messages then .ok (p.messages.map ScheduledMessage.loaded)
      else .error .nullCursor := by
  have hcount : 0 + p.messages.length = p.pendingCount := by
    rw [p.pendingCount_eq, Nat.zero_add]
  have hstart : absent "\"scheduled_time_ns\":".toList fileStart = true := by decide
  rw [pdesInflightLoadJson, pdesInflightSaveJson, List.append_assoc,
    loadEntries_saveEntries hcount hstart]

/-- Two entries hold the same packet for the same time. -/
structure ScheduledMessage.Same (e e' : ScheduledMessage) : Prop where
  scheduledTimeNs : e'.scheduledTimeNs = e.scheduledTimeNs
  tsNs : e'.msg.tsNs = e.msg.tsNs
  type : e'.msg.type = e.msg.type
  len : e'.msg.len = e.msg.len
  bytes : e'.msg.bytes 0 e.msg.len = e.msg.bytes 0 e.msg.len

theorem ScheduledMessage.same_loaded (e : ScheduledMessage) : e.Same e.loaded where
  scheduledTimeNs := rfl
  tsNs := rfl
  type := rfl
  len := rfl
  bytes := by
    have hlen : (e.msg.bytes 0 e.msg.len).length = e.msg.len := length_readBytes ..
    have hself := readBytes_self (e.msg.bytes 0 e.msg.len)
    rw [hlen] at hself
    exact hself

/-- The loader returns the entries that were saved, in their order. -/
def PendingMessages.RoundTrips (p : PendingMessages) : Prop :=
  ∃ entries, pdesInflightLoadJson (pdesInflightSaveJson p) = .ok entries ∧
    List.Forall₂ ScheduledMessage.Same p.messages entries

/-- The loader returns what was saved exactly when the last entry has no data, or there is none. -/
theorem inflight_json_round_trip (p : PendingMessages) : p.RoundTrips ↔ EndsEmpty p.messages := by
  constructor
  · rintro ⟨entries, hload, _⟩
    by_contra hends
    rw [load_save, if_neg hends] at hload
    cases hload
  · intro hends
    refine ⟨p.messages.map ScheduledMessage.loaded, by rw [load_save, if_pos hends], ?_⟩
    rw [List.forall₂_map_right_iff, List.forall₂_same]
    exact fun e _ => e.same_loaded

/-- A packet of one byte. -/
def onePacketMessage : Message where
  tsNs := 5
  len := 1
  data := [7]
  type := msgTypeNormal
  tsNs_lt := by decide
  len_le := by decide
  data_le := by decide

def onePacketEntry : ScheduledMessage where
  msg := onePacketMessage
  scheduledTimeNs := 10
  scheduledTimeNs_ge := by decide
  scheduledTimeNs_lt := by decide

/-- One packet of one byte in flight. -/
def onePacket : PendingMessages := pdesInflightAdd .empty onePacketEntry

/-- The loader of a file with one packet searches on from a null pointer. -/
theorem nullCursor_of_onePacket :
    pdesInflightLoadJson (pdesInflightSaveJson onePacket) = .error .nullCursor ∧
      ¬onePacket.RoundTrips := by
  have hload : pdesInflightLoadJson (pdesInflightSaveJson onePacket) = .error .nullCursor := by
    rw [load_save, if_neg (by decide)]
  refine ⟨hload, fun ⟨entries, hok, _⟩ => ?_⟩
  rw [hload] at hok
  cases hok

end LeanPdes
