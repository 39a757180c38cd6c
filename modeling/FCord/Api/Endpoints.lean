import FCord.Data.UriComponent
import FCord.Session.Screen

/-!
# The endpoints

Every function of the API makes a request of its arguments, some of which it writes into the path.
As long as the ids contain no slash and no question mark, a request tells which function has made
it, and of what, apart from the space around a title (`requests_unambiguous`).  How
`URLSearchParams` writes a query depends on the platform, and is a parameter.
-/

namespace FCord

/-- A call of an API function. -/
inductive ApiOp where
  | getRecordingList
  | getMeetingDetail (id : String)
  | getTranscript (recordingId : String)
  | uploadRecording (fileUri fileName mimeType : String) (now : LocalTime) (title : Option String)
  | retryTranscription (transcriptionId : String)
  | searchRecordings (q : String)
  | requestPresignedUrl (recordingId : String) (fileSizeBytes : ℕ) (checksumSha256 : String)
  | completeUploadSession (uploadSessionId checksumSha256 : String) (bytesUploaded : ℕ)
  deriving DecidableEq, Repr

namespace ApiOp

variable (e : Uri.Encoding)

/-- What the function hands to `apiRequest` or `apiUpload`. -/
def call : ApiOp → ApiCall
  | getRecordingList => .request "GET" "/api/meetings" none
  | getMeetingDetail id => .request "GET" ("/api/meetings/" ++ id) none
  | getTranscript recordingId => .request "GET" ("/api/meetings/transcript/" ++ recordingId) none
  | uploadRecording fileUri fileName mimeType now title =>
    FCord.uploadRecording fileUri fileName mimeType now title
  | retryTranscription transcriptionId =>
    .request "POST" ("/api/meetings/transcript/" ++ transcriptionId ++ "/regenerate")
      (some (.obj []))
  | searchRecordings q =>
    .request "GET" ("/api/meetings/minutes?" ++ e.param "keyword" q) none
  | requestPresignedUrl recordingId fileSizeBytes checksumSha256 =>
    .request "POST" ("/v1/recordings/" ++ recordingId ++ "/upload-sessions")
      (some (.obj [("file_size_bytes", .num (.ofInt fileSizeBytes)),
        ("checksum_sha256", .str checksumSha256)]))
  | completeUploadSession uploadSessionId checksumSha256 bytesUploaded =>
    .request "POST" ("/v1/upload-sessions/" ++ uploadSessionId ++ "/complete")
      (some (.obj [("checksum_sha256", .str checksumSha256),
        ("bytes_uploaded", .num (.ofInt bytesUploaded))]))

/-- The id has no meaning in a URL. -/
def PathId (id : String) : Prop := '/' ∉ id.toList ∧ '?' ∉ id.toList

instance (id : String) : Decidable (PathId id) :=
  inferInstanceAs (Decidable ('/' ∉ id.toList ∧ '?' ∉ id.toList))

/-- The ids have no meaning in a URL. -/
def Plain : ApiOp → Prop
  | getRecordingList => True
  | getMeetingDetail id => PathId id
  | getTranscript recordingId => PathId recordingId
  | uploadRecording _ _ _ _ _ => True
  | retryTranscription transcriptionId => PathId transcriptionId
  | searchRecordings _ => True
  | requestPresignedUrl recordingId _ _ => PathId recordingId
  | completeUploadSession uploadSessionId _ _ => PathId uploadSessionId

/-- The title that is sent. -/
def sentTitle (title : Option String) : Option String := (title.map trim).filter (· ≠ "")

/-- The call, with the title that is sent. -/
def sent : ApiOp → ApiOp
  | uploadRecording fileUri fileName mimeType now title =>
    uploadRecording fileUri fileName mimeType now (sentTitle title)
  | op => op

/-- The segments of the path. -/
def segments : ApiOp → List String
  | getRecordingList => ["api", "meetings"]
  | getMeetingDetail id => ["api", "meetings", id]
  | getTranscript recordingId => ["api", "meetings", "transcript", recordingId]
  | uploadRecording _ _ _ _ _ => ["api", "meetings", "upload"]
  | retryTranscription transcriptionId =>
    ["api", "meetings", "transcript", transcriptionId, "regenerate"]
  | searchRecordings q => ["api", "meetings", "minutes?" ++ e.param "keyword" q]
  | requestPresignedUrl recordingId _ _ => ["v1", "recordings", recordingId, "upload-sessions"]
  | completeUploadSession uploadSessionId _ _ =>
    ["v1", "upload-sessions", uploadSessionId, "complete"]

variable {e : Uri.Encoding} {op op' : ApiOp} {baseUrl : String} {token token' : Option String}

theorem url_eq (op : ApiOp) : ((op.call e).fetch baseUrl token).url.toList =
    baseUrl.toList ++ Uri.joinSegments (op.segments e) := by
  cases op <;> simp [call, ApiCall.fetch, segments, Uri.joinSegments, FCord.uploadRecording]

theorem segment_of_pathId {id : String} (h : PathId id) : Uri.Segment id := h.1

theorem segment_search (q : String) : Uri.Segment ("minutes?" ++ e.param "keyword" q) := by
  have hencoded : ∀ t : String, '/' ∉ (e.encode t).toList := fun t ht =>
    Uri.Encoding.ne_of_mem_encode ht (by decide) rfl
  simp [Uri.Segment, Uri.Encoding.param, hencoded]

theorem segments_plain (h : op.Plain) : ∀ s ∈ op.segments e, Uri.Segment s := by
  cases op with
  | getRecordingList => simp only [segments]; decide
  | uploadRecording => simp only [segments]; decide
  | getMeetingDetail id =>
    simp only [segments, List.forall_mem_cons]
    exact ⟨by decide, by decide, segment_of_pathId h, nofun⟩
  | getTranscript recordingId =>
    simp only [segments, List.forall_mem_cons]
    exact ⟨by decide, by decide, by decide, segment_of_pathId h, nofun⟩
  | retryTranscription transcriptionId =>
    simp only [segments, List.forall_mem_cons]
    exact ⟨by decide, by decide, by decide, segment_of_pathId h, by decide, nofun⟩
  | searchRecordings q =>
    simp only [segments, List.forall_mem_cons]
    exact ⟨by decide, by decide, segment_search q, nofun⟩
  | requestPresignedUrl recordingId =>
    simp only [segments, List.forall_mem_cons]
    exact ⟨by decide, by decide, segment_of_pathId h, by decide, nofun⟩
  | completeUploadSession uploadSessionId =>
    simp only [segments, List.forall_mem_cons]
    exact ⟨by decide, by decide, segment_of_pathId h, by decide, nofun⟩

/-! ### Dates -/

theorem toString_digits (n : ℕ) : ∀ c ∈ (toString n).toList, c.isDigit = true := by
  intro c hc
  rw [Nat.toString_eq_ofList_toDigits, String.toList_ofList] at hc
  exact Nat.isDigit_of_mem_toDigits (by decide) (by decide) hc

theorem padStart_toList (n : ℕ) : ∃ k, (padStart 2 (toString n)).toList =
    List.replicate k '0' ++ Nat.toDigits 10 n := by
  refine ⟨2 - (toString n).length, ?_⟩
  rw [padStart, String.toList_append, String.toList_ofList, Nat.toString_eq_ofList_toDigits,
    String.toList_ofList]

theorem padStart_digits (n : ℕ) : ∀ c ∈ (padStart 2 (toString n)).toList, c.isDigit = true := by
  obtain ⟨k, hk⟩ := padStart_toList n
  intro c hc
  rw [hk, List.mem_append] at hc
  rcases hc with hc | hc
  · rw [(List.mem_replicate.1 hc).2]
    rfl
  · exact Nat.isDigit_of_mem_toDigits (by decide) (by decide) hc

/-- The number that the digits denote. -/
theorem padStart_inj {m n : ℕ} (h : (padStart 2 (toString m)).toList =
    (padStart 2 (toString n)).toList) : m = n := by
  have hvalue : ∀ n : ℕ, Nat.ofDigitChars 10 (padStart 2 (toString n)).toList 0 = n := by
    intro n
    obtain ⟨k, hk⟩ := padStart_toList n
    rw [hk, Nat.ofDigitChars_append, Nat.ofDigitChars_replicate_zero, Nat.mul_zero,
      Nat.ofDigitChars_ten_toDigits]
  rw [← hvalue m, h, hvalue n]

/-- The digits before a character that is none. -/
theorem digits_inj {ds ds' r r' : List Char} {c : Char} (hc : c.isDigit = false)
    (hds : ∀ c ∈ ds, c.isDigit = true) (hds' : ∀ c ∈ ds', c.isDigit = true)
    (h : ds ++ c :: r = ds' ++ c :: r') : ds = ds' ∧ r = r' := by
  have hstop : ∀ r : List Char, (c :: r).takeWhile Char.isDigit = [] := by simp [hc]
  obtain ⟨he, hr⟩ := Uri.append_inj_of_takeWhile hds hds' (hstop r) (hstop r') h
  exact ⟨he, (List.cons.inj hr).2⟩

theorem toString_inj {m n : ℕ} (h : (toString m).toList = (toString n).toList) : m = n := by
  have hvalue : ∀ n : ℕ, Nat.ofDigitChars 10 (toString n).toList 0 = n := by
    intro n
    rw [Nat.toString_eq_ofList_toDigits, String.toList_ofList, Nat.ofDigitChars_ten_toDigits]
  rw [← hvalue m, h, hvalue n]

/-- The characters of a date. -/
theorem startDateTime_toList (t : LocalTime) : (startDateTime t).toList =
    (toString t.year).toList ++ '-' :: ((padStart 2 (toString t.month)).toList ++
      '-' :: ((padStart 2 (toString t.day)).toList ++ ' ' ::
        ((padStart 2 (toString t.hours)).toList ++
          ':' :: (padStart 2 (toString t.minutes)).toList))) := by
  simp [startDateTime]

/-- **A date is written in one way.** -/
theorem startDateTime_inj {t t' : LocalTime} (h : startDateTime t = startDateTime t') :
    t = t' := by
  have hlist := congrArg String.toList h
  rw [startDateTime_toList, startDateTime_toList] at hlist
  obtain ⟨hyear, hlist⟩ := digits_inj (by decide) (toString_digits _) (toString_digits _) hlist
  obtain ⟨hmonth, hlist⟩ := digits_inj (by decide) (padStart_digits _) (padStart_digits _) hlist
  obtain ⟨hday, hlist⟩ := digits_inj (by decide) (padStart_digits _) (padStart_digits _) hlist
  obtain ⟨hhours, hminutes⟩ :=
    digits_inj (by decide) (padStart_digits _) (padStart_digits _) hlist
  cases t
  cases t'
  simp only [LocalTime.mk.injEq]
  exact ⟨toString_inj hyear, padStart_inj hmonth, padStart_inj hday, padStart_inj hhours,
    padStart_inj hminutes⟩

/-! ### Titles -/

/-- The parts of a form that a title adds. -/
def titleParts (title : Option String) : List (String × FormPart) :=
  (title.map fun t => ("title", FormPart.text t)).toList

theorem titleParts_inj {title title' : Option String} (h : titleParts title = titleParts title') :
    title = title' := by
  cases title <;> cases title' <;> simp_all [titleParts]

/-- Only the title that is sent matters. -/
theorem uploadRecording_eq (fileUri fileName mimeType : String) (now : LocalTime)
    (title : Option String) : FCord.uploadRecording fileUri fileName mimeType now title =
      .upload "/api/meetings/upload" ([("audioFile", .file fileUri fileName mimeType),
        ("startDateTime", .text (startDateTime now))] ++ titleParts (sentTitle title)) := by
  cases title with
  | none => rfl
  | some t => by_cases h : trim t = "" <;>
      simp [FCord.uploadRecording, titleParts, sentTitle, Option.filter, h]

theorem sentTitle_sentTitle (title : Option String) :
    sentTitle (sentTitle title) = sentTitle title := by
  cases title with
  | none => rfl
  | some t => by_cases h : trim t = "" <;> simp [sentTitle, Option.filter, h, trim_trim]

theorem call_sent (op : ApiOp) : op.sent.call e = op.call e := by
  cases op with
  | uploadRecording fileUri fileName mimeType now title =>
    simp only [sent, call, uploadRecording_eq, sentTitle_sentTitle]
  | _ => rfl

/-- The parts of an upload are its arguments. -/
theorem uploadRecording_inj {fileUri fileName mimeType fileUri' fileName' mimeType' : String}
    {now now' : LocalTime} {title title' : Option String}
    (h : ((FCord.uploadRecording fileUri fileName mimeType now title).fetch baseUrl token).body =
      ((FCord.uploadRecording fileUri' fileName' mimeType' now' title').fetch
        baseUrl token').body) :
    (uploadRecording fileUri fileName mimeType now title).sent =
      (uploadRecording fileUri' fileName' mimeType' now' title').sent := by
  simp only [uploadRecording_eq, ApiCall.fetch, Body.form.injEq, List.cons_append,
    List.nil_append, List.cons.injEq, Prod.mk.injEq, FormPart.file.injEq, FormPart.text.injEq,
    true_and] at h
  obtain ⟨⟨rfl, rfl, rfl⟩, hdate, htitle⟩ := h
  obtain rfl := startDateTime_inj hdate
  simp only [sent, titleParts_inj htitle]

/-! ### Requests -/

theorem not_pathId_search (q : String) :
    ¬ PathId ("minutes?" ++ e.param "keyword" q) := by
  intro h
  exact h.2 (by simp)

theorem stringify_inj {j j' : Json} (h : j.stringify = j'.stringify) : j = j' := by
  have hparse := congrArg Json.parse h
  rw [Json.parse_stringify, Json.parse_stringify] at hparse
  exact Option.some.inj hparse

/-- What is sent in the path, the method and the body determines the call. -/
theorem eq_of_call (h : op.Plain) (h' : op'.Plain) (hsegments : op.segments e = op'.segments e)
    (hmethod :
      ((op.call e).fetch baseUrl token).method = ((op'.call e).fetch baseUrl token').method)
    (hbody : ((op.call e).fetch baseUrl token).body = ((op'.call e).fetch baseUrl token').body) :
    op.sent = op'.sent := by
  cases op with
  | getRecordingList =>
    cases op' with
    | getRecordingList => rfl
    | _ => simp [segments] at hsegments
  | getMeetingDetail id =>
    cases op' with
    | getMeetingDetail id' => simpa [segments, sent] using hsegments
    | uploadRecording => simp [call, ApiCall.fetch, FCord.uploadRecording] at hmethod
    | searchRecordings q =>
      simp only [segments, List.cons.injEq, and_true, true_and] at hsegments
      exact absurd (hsegments ▸ h) (not_pathId_search q)
    | _ => simp [segments] at hsegments
  | getTranscript recordingId =>
    cases op' with
    | getTranscript recordingId' => simpa [segments, sent] using hsegments
    | _ => simp [segments] at hsegments
  | uploadRecording fileUri fileName mimeType now title =>
    cases op' with
    | uploadRecording fileUri' fileName' mimeType' now' title' =>
      exact uploadRecording_inj hbody
    | getMeetingDetail => simp [call, ApiCall.fetch, FCord.uploadRecording] at hmethod
    | searchRecordings => simp [call, ApiCall.fetch, FCord.uploadRecording] at hmethod
    | _ => simp [segments] at hsegments
  | retryTranscription transcriptionId =>
    cases op' with
    | retryTranscription transcriptionId' => simpa [segments, sent] using hsegments
    | _ => simp [segments] at hsegments
  | searchRecordings q =>
    cases op' with
    | searchRecordings q' =>
      simp only [segments, List.cons.injEq, and_true, true_and,
        String.append_right_inj] at hsegments
      rw [Uri.Encoding.param_inj hsegments]
    | uploadRecording => simp [call, ApiCall.fetch, FCord.uploadRecording] at hmethod
    | getMeetingDetail id =>
      simp only [segments, List.cons.injEq, and_true, true_and] at hsegments
      exact absurd (hsegments ▸ h') (not_pathId_search q)
    | _ => simp [segments] at hsegments
  | requestPresignedUrl recordingId fileSizeBytes checksumSha256 =>
    cases op' with
    | requestPresignedUrl recordingId' fileSizeBytes' checksumSha256' =>
      have hjson := stringify_inj (Body.text.inj hbody)
      simp only [segments, List.cons.injEq, and_true, true_and] at hsegments
      simp only [Json.obj.injEq, List.cons.injEq, Prod.mk.injEq, Json.num.injEq, Decimal.ofInt,
        Decimal.mk.injEq, Int.natCast_inj, Json.str.injEq, and_true, true_and] at hjson
      rw [hsegments, hjson.1, hjson.2]
    | _ => simp [segments] at hsegments
  | completeUploadSession uploadSessionId checksumSha256 bytesUploaded =>
    cases op' with
    | completeUploadSession uploadSessionId' checksumSha256' bytesUploaded' =>
      have hjson := stringify_inj (Body.text.inj hbody)
      simp only [segments, List.cons.injEq, and_true, true_and] at hsegments
      simp only [Json.obj.injEq, List.cons.injEq, Prod.mk.injEq, Json.num.injEq, Decimal.ofInt,
        Decimal.mk.injEq, Int.natCast_inj, Json.str.injEq, and_true, true_and] at hjson
      rw [hsegments, hjson.1, hjson.2]
    | _ => simp [segments] at hsegments

-- an id with a slash can ask for something else
example : (getMeetingDetail "transcript/m1").call .form = (getTranscript "m1").call .form := rfl

end ApiOp

end FCord
