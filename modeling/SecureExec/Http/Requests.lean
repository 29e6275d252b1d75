import SecureExec.Http.HeaderFields

/-!
# Http — Requests — requests in the bytes of a loopback socket

`parseLoopbackRequestBuffer` reads the buffer of a socket from its start each time that more bytes
have come.

* `requests_stable`: what is a request, or none, stays so when more bytes come, and its body is what
  the headers say.
* `fields_kept_iff`: which fields are kept by the objects made of them.
-/

namespace Http

/-! ### Text -/

def crlf : Text := [13, 10]

/-- What is before the first `mark` and what is behind it. -/
def cut (mark : Text) : Text → Option (Text × Text)
  | [] => none
  | c :: t =>
    if mark <+: c :: t then some ([], (c :: t).drop mark.length)
    else (cut mark t).map fun r => (c :: r.1, r.2)

/-- `split("\r\n")`. -/
def splitLines : Text → List Text
  | [] => [[]]
  | 13 :: 10 :: t => [] :: splitLines t
  | c :: t => (splitLines t).modifyHead (c :: ·)

def includes (s word : Text) : Bool := (cut word s).isSome

/-- `\s`, among the characters of `latin1`. -/
def isSpace (c : ℕ) : Bool := (9 ≤ c && c ≤ 13) || c = 32 || c = 160

def trim (s : Text) : Text := ((s.dropWhile isSpace).reverse.dropWhile isSpace).reverse

def isDigit (c : ℕ) : Bool := 48 ≤ c && c ≤ 57

def isHexDigit (c : ℕ) : Bool := isDigit c || (65 ≤ c && c ≤ 70) || (97 ≤ c && c ≤ 102)

def digit (c : ℕ) : ℕ := if c ≤ 57 then c - 48 else if c ≤ 70 then c - 55 else c - 87

/-- The number that digits of the base write. -/
def ofDigits (base : ℕ) (s : Text) : ℕ := s.foldl (fun n c => n * base + digit c) 0

def MAX_SAFE_INTEGER : ℕ := 2 ^ 53 - 1

/-! ### Chunked bodies -/

/-- What `parseChunkedBody` returns, `null` for `malformed`.  What it calls `bytesConsumed` is the
bytes that are not left. -/
inductive ChunkedBody where
  | incomplete
  | malformed
  | complete (body rest : Text)
  deriving DecidableEq

/-- The size that a line gives.  What is behind the first `;` has no line break, for the line has
none. -/
def chunkSize (sizeLine : Text) : Option ℕ :=
  let sizePart := sizeLine.takeWhile (· ≠ 59)
  if sizeLine = [] ∨ 13 ∈ sizeLine ∨ 10 ∈ sizeLine then none
  else if sizePart = [] ∨ ¬ sizePart.all isHexDigit then none
  else if MAX_SAFE_INTEGER < ofDigits 16 sizePart then none
  else some (ofDigits 16 sizePart)

/-- The line is not folded, and names a field. -/
def namesField (line : Text) : Bool := line.head? ≠ some 32 && line.head? ≠ some 9 && 58 ∈ line

/-- The loop of `parseChunkedBody`, with the bytes from `offset` on and the chunks so far. -/
def parseChunks : ℕ → Text → Text → ChunkedBody
  | 0, _, _ => .incomplete
  | turns + 1, body, chunks =>
    match cut crlf body with
    | none => .incomplete
    | some (sizeLine, rest) =>
      match chunkSize sizeLine with
      | none => .malformed
      | some size =>
        if rest.length < size + 2 then .incomplete
        else if (rest.drop size).take 2 ≠ crlf then .malformed
        else if 0 < size then
          parseChunks turns (rest.drop (size + 2)) (chunks ++ rest.take size)
        else
          match cut (crlf ++ crlf) rest with
          | none => .incomplete
          | some (trailers, rest) =>
            if (splitLines trailers).all fun line => line = [] || namesField line then
              .complete chunks rest
            else .malformed

/-- Each turn of the loop takes two bytes at least. -/
def parseChunkedBody (body : Text) : ChunkedBody := parseChunks body.length body []

/-! ### Requests -/

/-- `/^([A-Z]+)\s+(\S+)\s+HTTP\/(1)\.(0|1)$/`. -/
def requestMatch (line : Text) : Option (Text × Text × ℕ) :=
  let method := line.takeWhile fun c => 65 ≤ c && c ≤ 90
  let afterMethod := line.drop method.length
  let target := afterMethod.dropWhile isSpace
  let url := target.takeWhile (! isSpace ·)
  let afterUrl := target.drop url.length
  let version := afterUrl.dropWhile isSpace
  if method = [] ∨ target = afterMethod ∨ url = [] ∨ version = afterUrl then none
  else if version = text "HTTP/1.0" then some (method, url, 0)
  else if version = text "HTTP/1.1" then some (method, url, 1)
  else none

/-- A turn of the loop over the header lines, with the headers and the raw headers so far; `none`
makes a bad request. -/
def readHeader (read : Headers × List (Text × Text)) (headerLine : Text) :
    Option (Headers × List (Text × Text)) :=
  let rawName := trim (headerLine.takeWhile (· ≠ 58))
  let rawValue := trim ((headerLine.dropWhile (· ≠ 58)).drop 1)
  if headerLine = [] then some read
  else if namesField headerLine ∧ isValid (rawName, rawValue) then
    some (appendNormalizedHeader read.1 (toLowerCase rawName) rawValue,
      read.2 ++ [(rawName, rawValue)])
  else none

def readHeaders (headerLines : List Text) : Option (Headers × List (Text × Text)) :=
  headerLines.foldlM readHeader (.empty, [])

/-- `joinHeaderValue(headers.connection || "").toLowerCase()`. -/
def connectionHeader (headers : Headers) : Text :=
  toLowerCase (((property headers (text "connection")).map joinHeaderValue).getD [])

def hasUpgradeRequestHeaders (headers : Headers) : Bool :=
  includes (connectionHeader headers) (text "upgrade") &&
    (property headers (text "upgrade")).any fun value => value ≠ .one []

def splitTransferEncodingTokens (value : Text) : List Text :=
  ((value.splitOn 44).map fun entry => toLowerCase (trim entry)).filter (· ≠ [])

/-- `parseContentLengthHeader`, of a header that is there. -/
def parseContentLengthHeader (value : HeaderValue) : Option ℕ :=
  let entries := match value with
    | .one entry => [entry]
    | .many entries => entries
  (entries.foldlM (fun parsed entry =>
    let nextValue := ofDigits 10 entry
    if entry = [] ∨ ¬ entry.all isDigit ∨ MAX_SAFE_INTEGER < nextValue then none
    else if ∃ n ∈ parsed, n ≠ nextValue then none
    else some (some nextValue)) (none : Option ℕ)).map fun parsed => parsed.getD 0

/-- The request that the server gets; no `bodyBase64` is the empty body. -/
structure ServerRequest where
  method : Text
  url : Text
  headers : Headers
  rawHeaders : List (Text × Text)
  body : Text

inductive ParseResult where
  | incomplete
  | badRequest
  | request (bytesConsumed : ℕ) (closeConnection : Bool) (request : ServerRequest)
      (upgradeHead : Option Text)

/-- The line breaks before the request line are passed over. -/
def skipBlank : Text → Text
  | 13 :: 10 :: t => skipBlank t
  | b => b

/-- The body that the headers say, in the bytes behind them. -/
def readBody (headers : Headers) (rest : Text) : ChunkedBody :=
  let contentLength := property headers (text "content-length")
  match property headers (text "transfer-encoding") with
  | some transferEncoding =>
    let tokens := splitTransferEncodingTokens (joinHeaderValue transferEncoding)
    if tokens.count (text "chunked") ≠ 1 ∨ tokens.getLast? ≠ some (text "chunked") ∨
        contentLength ≠ none then .malformed
    else parseChunkedBody rest
  | none =>
    match contentLength with
    | none => .complete [] rest
    | some value =>
      match parseContentLengthHeader value with
      | none => .malformed
      | some n => if rest.length < n then .incomplete else .complete (rest.take n) (rest.drop n)

/-- `upgradeListeners` is what the server counts for `upgrade`. -/
def parseLoopbackRequestBuffer (upgradeListeners : ℕ) (buffer : Text) : ParseResult :=
  match cut (crlf ++ crlf) (skipBlank buffer) with
  | none => .incomplete
  | some (headerBlock, rest) =>
    let lines := splitLines headerBlock
    match requestMatch (lines.headD []), readHeaders lines.tail with
    | some (method, url, minor), some (headers, rawHeaders) =>
      let close := if minor = 0 then !includes (connectionHeader headers) (text "keep-alive")
        else includes (connectionHeader headers) (text "close")
      if hasUpgradeRequestHeaders headers ∧ 0 < upgradeListeners then
        .request buffer.length false ⟨method, url, headers, rawHeaders, rest⟩ (some rest)
      else
        match readBody headers rest with
        | .malformed => .badRequest
        | .incomplete => .incomplete
        | .complete body rest =>
          .request (buffer.length - rest.length) close ⟨method, url, headers, rawHeaders, body⟩ none
    | _, _ => .badRequest

/-! ### More bytes -/

variable {mark b p q body rest : Text} {fields : List (Text × Text)}

theorem cut_eq (h : cut mark b = some (p, q)) : b = p ++ mark ++ q := by
  induction b generalizing p with
  | nil => cases h
  | cons c t ih =>
      rw [cut] at h
      split at h
      · rename_i hp
        cases h
        obtain ⟨s, hs⟩ := hp
        rw [← hs, List.nil_append, List.drop_left]
      · obtain ⟨⟨p', q'⟩, hc, he⟩ := Option.map_eq_some_iff.mp h
        cases he
        rw [ih hc]
        simp

/-- What follows does not move the first mark. -/
theorem cut_append (h : cut mark b = some (p, q)) (x : Text) :
    cut mark (b ++ x) = some (p, q ++ x) := by
  induction b generalizing p with
  | nil => cases h
  | cons c t ih =>
      rw [cut] at h
      rw [List.cons_append, cut]
      split at h
      · rename_i hp
        cases h
        have hm : mark <+: c :: (t ++ x) := hp.trans (List.prefix_append (c :: t) x)
        rw [if_pos hm, ← List.cons_append, List.drop_append_of_le_length hp.length_le]
      · rename_i hp
        obtain ⟨⟨p', q'⟩, hc, he⟩ := Option.map_eq_some_iff.mp h
        cases he
        have hl : mark.length ≤ (c :: t).length := by
          rw [cut_eq hc]
          simp only [List.length_cons, List.length_append]
          omega
        -- the mark is no longer than what is there, so it does not start here either
        have hn : ¬ mark <+: c :: (t ++ x) := fun hm =>
          hp (List.prefix_of_prefix_length_le hm (List.prefix_append (c :: t) x) hl)
        rw [if_neg hn, ih hc]
        rfl

/-- The same answer, with more bytes left. -/
def ChunkedBody.append (x : Text) : ChunkedBody → ChunkedBody
  | .complete body rest => .complete body (rest ++ x)
  | r => r

variable (x : Text)

theorem parseChunks_append {turns more : ℕ} {chunks : Text} (hle : turns ≤ more)
    (h : parseChunks turns b chunks ≠ .incomplete) :
    parseChunks more (b ++ x) chunks = (parseChunks turns b chunks).append x := by
  induction turns generalizing more b chunks with
  | zero => exact absurd rfl h
  | succ turns ih =>
      obtain ⟨more, rfl⟩ := Nat.exists_eq_add_of_le' (Nat.lt_of_lt_of_le (Nat.succ_pos _) hle)
      rw [parseChunks] at h ⊢
      rw [parseChunks]
      cases hc : cut crlf b with
      | none => exact absurd (by rw [hc]) h
      | some parts =>
          obtain ⟨line, rest⟩ := parts
          rw [hc] at h
          rw [cut_append hc x]
          dsimp only at h ⊢
          cases hs : chunkSize line with
          | none => rfl
          | some size =>
              rw [hs] at h
              dsimp only at h ⊢
              by_cases hl : rest.length < size + 2
              · exact absurd (if_pos hl) h
              · have hdrop : ∀ n ≤ size + 2, (rest ++ x).drop n = rest.drop n ++ x := fun n hn =>
                  List.drop_append_of_le_length (by omega)
                rw [if_neg hl] at h ⊢
                rw [if_neg (by rw [List.length_append]; omega), hdrop size (by omega),
                  List.take_append_of_le_length (by rw [List.length_drop]; omega),
                  hdrop _ le_rfl, List.take_append_of_le_length (by omega)]
                by_cases ht : (rest.drop size).take 2 ≠ crlf
                · rw [if_pos ht, if_pos ht]
                  rfl
                · rw [if_neg ht] at h ⊢
                  rw [if_neg ht]
                  by_cases hp : 0 < size
                  · rw [if_pos hp] at h ⊢
                    rw [if_pos hp]
                    exact ih (Nat.le_of_succ_le_succ hle) h
                  · rw [if_neg hp] at h ⊢
                    rw [if_neg hp]
                    cases he : cut (crlf ++ crlf) rest with
                    | none => exact absurd (by rw [he]) h
                    | some parts =>
                        rw [cut_append he x]
                        dsimp only
                        split <;> rfl

variable {turns : ℕ}

/-- What is left of a body is not longer. -/
theorem parseChunks_rest {chunks : Text}
    (h : parseChunks turns b chunks = .complete body rest) : rest.length ≤ b.length := by
  induction turns generalizing b chunks with
  | zero => cases h
  | succ turns ih =>
      rw [parseChunks] at h
      split at h
      · cases h
      · rename_i line after hc
        have hlen := congrArg List.length (cut_eq hc)
        simp only [List.length_append] at hlen
        split at h
        · cases h
        · split at h
          · cases h
          · split at h
            · cases h
            · split at h
              · have := ih h
                rw [List.length_drop] at this
                omega
              · split at h
                · cases h
                · rename_i he
                  have hend := congrArg List.length (cut_eq he)
                  simp only [List.length_append] at hend
                  split at h
                  · cases h
                    omega
                  · cases h

variable {headers : Headers}

theorem readBody_append (h : readBody headers b ≠ .incomplete) :
    readBody headers (b ++ x) = (readBody headers b).append x := by
  unfold readBody at h ⊢
  dsimp only at h ⊢
  split at h
  · split at h
    · rename_i hbad
      rw [if_pos hbad, if_pos hbad]
      rfl
    · rename_i hok
      rw [if_neg hok, if_neg hok]
      exact parseChunks_append x (by simp) h
  · split at h
    · rfl
    · split at h
      · rfl
      · rename_i n hnum
        by_cases hl : b.length < n
        · exact absurd (if_pos hl) h
        · rw [if_neg hl, if_neg (by rw [List.length_append]; omega),
            List.take_append_of_le_length (by omega), List.drop_append_of_le_length (by omega)]
          rfl

/-- Where a body comes from. -/
theorem readBody_inv (h : readBody headers b = .complete body rest) :
    (property headers (text "transfer-encoding") ≠ none ∧
        property headers (text "content-length") = none ∧ parseChunkedBody b = .complete body rest) ∨
      property headers (text "transfer-encoding") = none ∧
        ((property headers (text "content-length") = none ∧ body = [] ∧ rest = b) ∨
        ∃ value n, property headers (text "content-length") = some value ∧
          parseContentLengthHeader value = some n ∧ n ≤ b.length ∧ body = b.take n ∧
          rest = b.drop n) := by
  unfold readBody at h
  dsimp only at h
  split at h
  · rename_i hte
    split at h
    · cases h
    · rename_i hok
      exact .inl ⟨by rw [hte]; exact nofun, by_contra fun hcl => hok (.inr (.inr hcl)), h⟩
  · rename_i hte
    split at h
    · rename_i hcl
      cases h
      exact .inr ⟨hte, .inl ⟨hcl, rfl, rfl⟩⟩
    · rename_i value hcl
      split at h
      · cases h
      · rename_i n hnum
        split at h
        · cases h
        · rename_i hl
          cases h
          exact .inr ⟨hte, .inr ⟨value, n, hcl, hnum, by omega, rfl, rfl⟩⟩

theorem readBody_rest (h : readBody headers b = .complete body rest) :
    rest.length ≤ b.length := by
  rcases readBody_inv h with ⟨-, -, hc⟩ | ⟨-, ⟨-, -, rfl⟩ | ⟨value, n, -, -, -, -, rfl⟩⟩
  · exact parseChunks_rest hc
  · exact le_rfl
  · simp

/-- With two bytes behind the line breaks it is known where they end. -/
theorem skipBlank_append : ∀ b, 2 ≤ (skipBlank b).length →
    skipBlank (b ++ x) = skipBlank b ++ x := by
  intro b
  induction b using skipBlank.induct with
  | case1 t ih => exact ih
  | case2 b hb =>
      intro h
      have hself : skipBlank b = b := skipBlank.eq_2 b hb
      rw [hself] at h ⊢
      match b, h with
      | c :: d :: t, _ => exact skipBlank.eq_2 _ fun t' he => hb t (by cases he; rfl)

/-- The same answer.  An upgrade takes what there is. -/
def ParseResult.append (x : Text) : ParseResult → ParseResult
  | .request n close r (some head) =>
    .request (n + x.length) close { r with body := r.body ++ x } (some (head ++ x))
  | r => r

variable {listeners : ℕ}

/-- **More bytes change nothing** once there is an answer. -/
theorem parse_append (h : parseLoopbackRequestBuffer listeners b ≠ .incomplete) :
    parseLoopbackRequestBuffer listeners (b ++ x) =
      (parseLoopbackRequestBuffer listeners b).append x := by
  unfold parseLoopbackRequestBuffer at h ⊢
  cases hc : cut (crlf ++ crlf) (skipBlank b) with
  | none => exact absurd (by rw [hc]) h
  | some parts =>
      obtain ⟨headerBlock, rest⟩ := parts
      have hlen := congrArg List.length (cut_eq hc)
      simp only [List.length_append, crlf, List.length_cons, List.length_nil] at hlen
      rw [hc] at h
      rw [skipBlank_append x b (by omega), cut_append hc x]
      dsimp only at h ⊢
      split at h
      · rename_i method url minor headers rawHeaders _ _
        by_cases hup : hasUpgradeRequestHeaders headers = true ∧ 0 < listeners
        · rw [if_pos hup, if_pos hup, List.length_append]
          rfl
        · rw [if_neg hup] at h ⊢
          rw [if_neg hup]
          have hbody : readBody headers rest ≠ .incomplete →
              readBody headers (rest ++ x) = (readBody headers rest).append x := readBody_append x
          cases hb : readBody headers rest with
          | incomplete => exact absurd (by rw [hb]) h
          | malformed => rw [hbody (by rw [hb]; exact nofun), hb]; rfl
          | complete body left =>
              rw [hbody (by rw [hb]; exact nofun), hb]
              simp [ChunkedBody.append, ParseResult.append, Nat.add_sub_add_right]
      · rfl

variable {n : ℕ}

/-- Where a request comes from. -/
theorem request_inv {close : Bool} {r : ServerRequest}
    (h : parseLoopbackRequestBuffer listeners b = .request n close r none) :
    ∃ headerBlock rest left, cut (crlf ++ crlf) (skipBlank b) = some (headerBlock, rest) ∧
      readHeaders (splitLines headerBlock).tail = some (r.headers, r.rawHeaders) ∧
      readBody r.headers rest = .complete r.body left ∧ n = b.length - left.length := by
  unfold parseLoopbackRequestBuffer at h
  split at h
  · cases h
  · rename_i headerBlock rest hc
    dsimp only at h
    split at h
    · rename_i hread
      split at h
      · cases h
      · split at h
        · cases h
        · cases h
        · rename_i body left hb
          cases h
          exact ⟨_, _, left, hc, hread, hb, rfl⟩
    · cases h

theorem length_skipBlank_le (b : Text) : (skipBlank b).length ≤ b.length := by
  induction b using skipBlank.induct with
  | case1 t ih =>
      rw [skipBlank]
      exact ih.trans (by simp only [List.length_cons]; omega)
  | case2 b hb => rw [skipBlank.eq_2 b hb]

/-- The headers are those that are read. -/
theorem readHeaders_build {lines : List Text} {read : Headers × List (Text × Text)}
    (h : readHeaders lines = some read) : read.1 = build read.2 := by
  suffices ∀ (lines : List Text) (acc : Headers × List (Text × Text)), acc.1 = build acc.2 →
    lines.foldlM readHeader acc = some read → read.1 = build read.2 from this lines _ rfl h
  intro lines
  induction lines with
  | nil =>
      intro acc hacc hr
      cases hr
      exact hacc
  | cons line lines ih =>
      intro acc hacc hr
      rw [List.foldlM_cons] at hr
      obtain ⟨acc', hline, hr⟩ := Option.bind_eq_some_iff.mp hr
      refine ih acc' ?_ hr
      unfold readHeader at hline
      dsimp only at hline
      split at hline
      · cases hline
        exact hacc
      · split at hline
        · cases hline
          rw [build_concat, hacc]
        · cases hline

theorem property_eq {key : Text} (h : inherited key = none) :
    property headers key = headers.get key := by
  rw [property, h, Option.map_none, Option.or_none]

variable {f : Text × Text}

theorem mem_valuesOf (hf : f ∈ fields) : f.2 ∈ valuesOf fields (toLowerCase f.1) :=
  List.mem_map_of_mem (List.mem_filter.mpr ⟨hf, decide_eq_true rfl⟩)

theorem get_ne_none {key : Text} (hb : headers = build fields) (hf : f ∈ fields)
    (hk : toLowerCase f.1 = key) (hp : key ≠ text "__proto__") : headers.get key ≠ none := by
  subst hb hk
  rw [get_build hp, if_neg (List.ne_nil_of_mem (mem_valuesOf hf))]
  exact Option.some_ne_none _

theorem parseContentLengthHeader_one {t : Text}
    (h : parseContentLengthHeader (.one t) = some n) : t.all isDigit = true ∧ n = ofDigits 10 t := by
  simp [parseContentLengthHeader] at h
  exact ⟨List.all_eq_true.mpr h.1.2.1, h.2.symm⟩

/-- The length of a body: one number, of one field. -/
theorem contentLength_inv {value : HeaderValue}
    (h : (build fields).get (text "content-length") = some value)
    (hn : parseContentLengthHeader value = some n) :
    ∃ t, value = .one t ∧ t.all isDigit ∧ n = ofDigits 10 t ∧
      valuesOf fields (text "content-length") = [t] := by
  rw [get_build (by decide)] at h
  split at h
  · cases h
  · rename_i hne
    cases h
    obtain ⟨hall, hnum⟩ := parseContentLengthHeader_one hn
    obtain ⟨t, ts, hts⟩ := List.exists_cons_of_ne_nil hne
    have hvalues : (inherited (text "content-length")).toList ++ t :: ts = t :: ts := rfl
    rw [hts, hvalues] at hall hnum
    rw [hts, hvalues]
    cases ts with
    | nil =>
        have hone : List.intercalate (text ", ") [t] = t := List.intercalate_singleton
        rw [hone] at hall hnum
        exact ⟨t, congrArg HeaderValue.one hone, hall, hnum, rfl⟩
    | cons u ts =>
        -- the comma between two values is no digit
        have hcomma : 44 ∈ List.intercalate (text ", ") (t :: u :: ts) := by
          simp [List.intercalate, text]
        exact absurd (List.all_eq_true.mp hall 44 hcomma) (by decide)

/-- What is right of a request at the head of the buffer. -/
structure Framed (buffer : Text) (bytesConsumed : ℕ) (r : ServerRequest) : Prop where
  pos : 0 < bytesConsumed
  le : bytesConsumed ≤ buffer.length
  /-- With a length, the body is that many bytes behind the head, and without one it is empty. -/
  body : ∃ headerBlock rest, cut (crlf ++ crlf) (skipBlank buffer) = some (headerBlock, rest) ∧
    (∀ value, r.headers.get (text "content-length") = some value → ∃ t, value = .one t ∧
      t.all isDigit ∧ ofDigits 10 t ≤ rest.length ∧ r.body = rest.take (ofDigits 10 t)) ∧
    (r.headers.get (text "content-length") = none →
      r.headers.get (text "transfer-encoding") = none → r.body = [])
  exclusive : ∀ f ∈ r.rawHeaders, ∀ g ∈ r.rawHeaders,
    toLowerCase f.1 = text "transfer-encoding" → toLowerCase g.1 ≠ text "content-length"
  single : ∀ f ∈ r.rawHeaders, ∀ g ∈ r.rawHeaders, toLowerCase f.1 = text "content-length" →
    toLowerCase g.1 = text "content-length" → f.2 = g.2

theorem framed {close : Bool} {r : ServerRequest}
    (h : parseLoopbackRequestBuffer listeners b = .request n close r none) : Framed b n r := by
  obtain ⟨headerBlock, rest, left, hcut, hread, hbody, rfl⟩ := request_inv h
  have hlen := congrArg List.length (cut_eq hcut)
  simp only [List.length_append, crlf, List.length_cons, List.length_nil] at hlen
  have hb := length_skipBlank_le b
  have hrest := readBody_rest hbody
  have hbuild : r.headers = build r.rawHeaders := readHeaders_build hread
  have hinv := readBody_inv hbody
  rw [property_eq (by decide), property_eq (by decide)] at hinv
  refine ⟨by omega, by omega, ⟨headerBlock, rest, hcut, fun value hv => ?_, fun hcl hte => ?_⟩,
    fun f hf g hg hfte hgcl => ?_, fun f hf g hg hfcl hgcl => ?_⟩
  · rcases hinv with ⟨-, hcl, -⟩ | ⟨-, ⟨hcl, -⟩ | ⟨value', n, hcl, hnum, hle, hbody, -⟩⟩
    · cases hv.symm.trans hcl
    · cases hv.symm.trans hcl
    · cases hv.symm.trans hcl
      obtain ⟨t, hone, hall, rfl, -⟩ := contentLength_inv (hbuild ▸ hv) hnum
      exact ⟨t, hone, hall, hle, hbody⟩
  · rcases hinv with ⟨hte', -, -⟩ | ⟨-, ⟨-, hnil, -⟩ | ⟨value', n, hcl', -⟩⟩
    · exact absurd hte hte'
    · exact hnil
    · cases hcl.symm.trans hcl'
  · have hte := get_ne_none hbuild hf hfte (by decide)
    have hcl := get_ne_none hbuild hg hgcl (by decide)
    rcases hinv with ⟨-, hcl', -⟩ | ⟨hte', -⟩
    · exact hcl hcl'
    · exact hte hte'
  · have hcl := get_ne_none hbuild hf hfcl (by decide)
    rcases hinv with ⟨-, hcl', -⟩ | ⟨-, ⟨hcl', -⟩ | ⟨value, n, hv, hnum, -⟩⟩
    · exact absurd hcl' hcl
    · exact absurd hcl' hcl
    · obtain ⟨t, -, -, -, hvs⟩ := contentLength_inv (hbuild ▸ hv) hnum
      have hf' := mem_valuesOf hf
      have hg' := mem_valuesOf hg
      rw [hfcl, hvs, List.mem_singleton] at hf'
      rw [hgcl, hvs, List.mem_singleton] at hg'
      rw [hf', hg']

/-- **Requests are framed once and for all**: an answer stays when more bytes come. -/
theorem requests_stable (upgradeListeners : ℕ) (buffer : Text) :
    (parseLoopbackRequestBuffer upgradeListeners buffer ≠ .incomplete →
      ∀ x, parseLoopbackRequestBuffer upgradeListeners (buffer ++ x) =
        (parseLoopbackRequestBuffer upgradeListeners buffer).append x) ∧
    ∀ n close r, parseLoopbackRequestBuffer upgradeListeners buffer = .request n close r none →
      Framed buffer n r :=
  ⟨fun h x => parse_append x h, fun _ _ _ => framed⟩

/-- A body of two bytes: nothing is decided before the second one, and what follows it changes
nothing. -/
theorem requests_stable_cut :
    (parseLoopbackRequestBuffer 0
      (text "PUT / HTTP/1.1\r\nContent-Length: 2\r\n\r\no") matches .incomplete) ∧
    ∃ n close r, Framed (text "PUT / HTTP/1.1\r\nContent-Length: 2\r\n\r\nok") n r ∧ ∀ x,
      parseLoopbackRequestBuffer 0
        (text "PUT / HTTP/1.1\r\nContent-Length: 2\r\n\r\nok" ++ x) = .request n close r none := by
  have hread : (parseLoopbackRequestBuffer 0 (text "PUT / HTTP/1.1\r\nContent-Length: 2\r\n\r\nok")
      matches .request _ _ _ none) := by decide +kernel
  obtain ⟨hstable, hframed⟩ :=
    requests_stable 0 (text "PUT / HTTP/1.1\r\nContent-Length: 2\r\n\r\nok")
  refine ⟨by decide +kernel, ?_⟩
  split at hread
  next n close r h =>
    rw [h] at hstable
    exact ⟨n, close, r, hframed n close r h, fun x => hstable nofun x⟩
  next => cases hread

/-! ### The fields of a message -/

/-- A field as it is sent. -/
def fieldLine (field : Text × Text) : Text := field.1 ++ 58 :: field.2

/-- The objects made of the fields have them, and they are written back. -/
structure FieldsKept (fields : List (Text × Text)) : Prop where
  normalized : ∃ headers, normalizeRequestHeaders (fields.map fun f => (f.1, [f.2])) =
    some headers ∧ Kept fields headers
  parsed : ∃ read, readHeaders (fields.map fieldLine) = some read ∧ Kept fields read.1
  serialized : Kept fields (serializeRawHeaderPairs (some fields) none).headers
  finalized : ∀ key, let pairs := serializeRawHeaderPairs (some fields) none
    ((finalizeRawHeaderPairs pairs.headers pairs.rawNameMap pairs.order).filter
        fun p => toLowerCase p.1 = key).map Prod.snd =
      (kept fields key).elim [] (Http.serialized key)

theorem trim_sublist (t : Text) : (trim t).Sublist t := by
  have h := (List.dropWhile_sublist isSpace (l := (t.dropWhile isSpace).reverse)).reverse
  rw [List.reverse_reverse] at h
  exact h.trans (List.dropWhile_sublist _)

theorem trim_eq {t : Text} (h : ∀ c ∈ t, isSpace c = false) : trim t = t := by
  have hdrop : ∀ s : Text, (∀ c ∈ s, isSpace c = false) → s.dropWhile isSpace = s := by
    intro s hs
    cases s with
    | nil => rfl
    | cons c s => rw [List.dropWhile_cons_of_neg (by simp [hs c List.mem_cons_self])]
  rw [trim, hdrop t h, hdrop _ fun c hc => h c (List.mem_reverse.mp hc), List.reverse_reverse]

theorem token_char {t : Text} (h : checkIsHttpToken t = true) {c : ℕ} (hc : c ∈ t) :
    isSpace c = false ∧ c ≠ 58 := by
  have hextra : ∀ c ∈ text "!#$%&'*+-.^_`|~", isSpace c = false ∧ c ≠ 58 := by decide
  have hall := List.all_eq_true.mp (Bool.and_eq_true _ _ ▸ h).2 c hc
  by_cases he : c ∈ text "!#$%&'*+-.^_`|~"
  · exact hextra c he
  · simp [he] at hall
    simp only [isSpace, Bool.or_eq_false_iff, Bool.and_eq_false_iff, decide_eq_false_iff_not]
    omega

/-- A line is read as its field, with the blanks around the value dropped. -/
theorem readHeader_fieldLine (hf : isValid f = true) (read : Headers × List (Text × Text)) :
    readHeader read (fieldLine f) =
      some (appendNormalizedHeader read.1 (toLowerCase f.1) (trim f.2),
        read.2 ++ [(f.1, trim f.2)]) := by
  obtain ⟨name, value⟩ := f
  obtain ⟨hname, hvalue⟩ := (Bool.and_eq_true _ _).mp hf
  have hchar := fun c (hc : c ∈ name) => token_char hname hc
  have hpos : ∀ c ∈ name, (c ≠ 58 : Bool) = true := fun c hc => decide_eq_true (hchar c hc).2
  have hnames : namesField (fieldLine (name, value)) = true := by
    cases name with
    | nil => cases hname
    | cons c name =>
        have hc := (hchar c List.mem_cons_self).1
        simp [namesField, fieldLine]
        constructor <;> rintro rfl <;> cases hc
  have hvalid : isValid (name, trim value) = true := by
    rw [isValid, hname, Bool.true_and, Bool.not_eq_true']
    rw [Bool.not_eq_true'] at hvalue
    rw [checkInvalidHeaderChar, List.any_eq_false] at hvalue ⊢
    exact fun c hc => hvalue c ((trim_sublist value).subset hc)
  rw [readHeader]
  dsimp only
  rw [if_neg (by simp [fieldLine])]
  rw [fieldLine] at hnames ⊢
  rw [List.takeWhile_append_of_pos hpos, List.dropWhile_append_of_pos hpos]
  simp [hnames, hvalid, trim_eq fun c hc => (hchar c hc).1]

theorem readHeaders_fieldLines (h : ∀ f ∈ fields, isValid f = true) :
    readHeaders (fields.map fieldLine) = some (build (fields.map fun f => (f.1, trim f.2)),
      fields.map fun f => (f.1, trim f.2)) := by
  induction fields using List.reverseRecOn with
  | nil => rfl
  | append_singleton fields f ih =>
      have hf := h f (by simp)
      rw [readHeaders, List.map_append, List.foldlM_append, ← readHeaders,
        ih fun g hg => h g (List.mem_append_left _ hg)]
      simp [readHeader_fieldLine hf, build_concat]

/-- Joined values are shorter where one is trimmed. -/
theorem trimmed_of_intercalate (sep : Text) : ∀ values : List Text,
    (List.intercalate sep (values.map trim)).length ≤ (List.intercalate sep values).length ∧
      ((List.intercalate sep (values.map trim)).length = (List.intercalate sep values).length →
        ∀ v ∈ values, trim v = v)
  | [] => ⟨le_rfl, fun _ => nofun⟩
  | [v] => by
      have hv := (trim_sublist v).length_le
      simp only [List.map_cons, List.map_nil, List.intercalate_singleton, List.forall_mem_singleton]
      exact ⟨hv, (trim_sublist v).eq_of_length⟩
  | v :: w :: values => by
      have hv := (trim_sublist v).length_le
      obtain ⟨hle, heq⟩ := trimmed_of_intercalate sep (w :: values)
      simp only [List.map_cons, List.intercalate_cons_cons, List.length_append] at hle heq ⊢
      refine ⟨by omega, fun h => List.forall_mem_cons.mpr
        ⟨(trim_sublist v).eq_of_length (by omega), heq (by omega)⟩⟩

theorem trimmed_of_combined {key : Text} {values : List Text}
    (h : combined key (values.map trim) = combined key values) : ∀ v ∈ values, trim v = v := by
  refine (trimmed_of_intercalate (text ", ") values).2 ?_
  have hjoin := congrArg (fun value => (joinHeaderValue value).length) h
  unfold combined at hjoin
  split at hjoin <;> exact hjoin

theorem valuesOf_trim (key : Text) :
    valuesOf (fields.map fun f => (f.1, trim f.2)) key = (valuesOf fields key).map trim := by
  simp only [valuesOf, List.filter_map, List.map_map]
  rfl

/-- **Fields are kept** if none has a name that objects answer to, and no value begins or ends with a
blank, a tab or a no-break space: the parser drops them. -/
theorem fields_kept_iff (h : ∀ f ∈ fields, isValid f = true) :
    FieldsKept fields ↔ Ordinary fields ∧ ∀ f ∈ fields, trim f.2 = f.2 := by
  have hnormal : normalizeRequestHeaders (fields.map fun f => (f.1, [f.2])) =
      some (build fields) := by
    rw [normalizeRequestHeaders_eq]
    · simp [List.flatMap_map]
    · intro e he
      obtain ⟨f, hf, rfl⟩ := List.mem_map.mp he
      have hvalid := (Bool.and_eq_true _ _).mp (h f hf)
      exact ⟨hvalid.1, by simpa using hvalid.2⟩
  constructor
  · intro hk
    obtain ⟨headers, hheaders, hkept⟩ := hk.normalized
    cases hnormal.symm.trans hheaders
    have hord := kept_build_iff.mp hkept
    refine ⟨hord, fun f hf => ?_⟩
    obtain ⟨read, hread, hkept'⟩ := hk.parsed
    cases (readHeaders_fieldLines h).symm.trans hread
    have hp : toLowerCase f.1 ≠ text "__proto__" := fun hp => absurd (hord f hf) (by rw [hp]; decide)
    have hne := List.ne_nil_of_mem (mem_valuesOf hf)
    have hget := hkept' (toLowerCase f.1)
    rw [get_build hp, valuesOf_trim, kept, if_neg hne, if_neg (by simpa using hne), hord f hf]
      at hget
    exact trimmed_of_combined (Option.some.inj hget) f.2 (mem_valuesOf hf)
  · rintro ⟨hord, htrim⟩
    have hkept := kept_build_iff.mpr hord
    have hsame : (fields.map fun f => (f.1, trim f.2)) = fields :=
      (List.map_congr_left fun f hf => show (f.1, trim f.2) = id f from
        Prod.ext rfl (htrim f hf)).trans (List.map_id _)
    exact ⟨⟨_, hnormal, hkept⟩, ⟨_, readHeaders_fieldLines h, by rw [hsame]; exact hkept⟩,
      (collected fields).headers ▸ hkept, finalize_build hord⟩

/-- Two cookies, and a name in both cases. -/
theorem fields_kept_cookies :
    FieldsKept [(text "Set-Cookie", text "a=1"), (text "X-A", text "1"), (text "set-cookie", text "b=2"),
      (text "x-a", text "2")] :=
  (fields_kept_iff (by decide)).mpr ⟨by unfold Ordinary; decide, by decide⟩

end Http
