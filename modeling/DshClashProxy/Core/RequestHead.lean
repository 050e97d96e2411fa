import DshClashProxy.Core.Relay
import DshClashProxy.Lib.Lines

/-!
# The head that opens an absolute-form request

`handleAbsolute` reads the head as latin1 and sends the one it builds as UTF-8. It joins the
header lines it keeps and puts a line end in front of the header it adds, so where it keeps
none the head ends early.
-/
namespace DshClashProxy.Core.RequestHead

open Js Js.Text ProxyServer Client Relay Lib.Lines

/-- Bytes that stay on their line. -/
def OnLine (b : Bytes) : Prop := 13 ∉ b ∧ 10 ∉ b

instance (b : Bytes) : Decidable (OnLine b) := inferInstanceAs (Decidable (_ ∧ _))

/-- A request head in absolute form. Its first byte does not make it a SOCKS5 greeting. -/
structure AbsoluteHead where
  method : Bytes
  target : Bytes
  version : Bytes
  lines : List Bytes
  method_ok : OnLine method ∧ 32 ∉ method
  target_ok : OnLine target ∧ 32 ∉ target
  version_ok : OnLine version
  lines_ok : ∀ line ∈ lines, line ≠ [] ∧ OnLine line
  method_ne : method ≠ Bytes.ofAscii "CONNECT".toList
  method_head : method.head? ≠ some 0x05
  absolute : (startsWith (Bytes.latin1 target) "http://".toList ||
    startsWith (Bytes.latin1 target) "https://".toList) = true

namespace AbsoluteHead

def requestLine (h : AbsoluteHead) : Bytes := h.method ++ 32 :: (h.target ++ 32 :: h.version)

def allLines (h : AbsoluteHead) : List Bytes := h.requestLine :: h.lines

/-- The head in front of the empty line. -/
def bytes (h : AbsoluteHead) : Bytes := [13, 10].intercalate h.allLines

end AbsoluteHead

/-- The name of a header: what stands in front of the first colon, in any letter case. -/
def headerName (line : Bytes) : Option Text :=
  (indexOf (Bytes.latin1 line) ':').map fun colon =>
    ((Bytes.latin1 line).take colon).map Char.toLower

/-- The line is a header named Connection or Proxy-Connection. -/
def IsConnection (line : Bytes) : Prop :=
  headerName line = some "connection".toList ∨ headerName line = some "proxy-connection".toList

instance : DecidablePred IsConnection := fun _ => inferInstanceAs (Decidable (_ ∨ _))

/-- The header lines that should be kept. -/
def otherLines (lines : List Bytes) : List Bytes := lines.filter fun line => ¬ IsConnection line

def closing : Bytes := Bytes.ofAscii "Connection: close\r\n\r\n".toList

/-- The request line in origin form, the header lines that are to be kept, and the header that
closes the connection. -/
def originHead (h : AbsoluteHead) (url : Url) : Bytes :=
  h.method ++ 32 :: (Bytes.ofAscii (url.pathname ++ url.search) ++
    Bytes.ofAscii " HTTP/1.1\r\n".toList ++
    (block 13 10 (otherLines h.lines) ++ closing))

/-- What is sent is the head in origin form, and its first empty line is at its end. -/
def Faithful (h : AbsoluteHead) (url : Url) (sent : Bytes) : Prop :=
  sent = originHead h url ∧ ¬ headEnd <:+: sent.dropLast

/-- The scheme of a target that `handleHttp` takes for a URL. -/
def IsHttp (target : Text) : Prop :=
  (startsWith target "http://".toList || startsWith target "https://".toList) = true

/-- The parser returns http URLs in serialized form: percent-encoded ASCII without white space. A
URL of another scheme may have an opaque path, which is not. -/
def SerializesUrls (parseUrl : Text → Option Url) : Prop :=
  ∀ target url, IsHttp target → parseUrl target = some url →
    ∀ c ∈ url.pathname ++ url.search, 32 < c.toNat ∧ c.toNat < 127

/-- A header is to be kept, and what is to be kept is ASCII and kept. -/
structure Survives (h : AbsoluteHead) : Prop where
  method : ∀ b ∈ h.method, b.toNat < 128
  some_kept : ∃ line ∈ h.lines, ¬ IsConnection line
  kept : ∀ line ∈ h.lines, ¬ IsConnection line →
    isConnectionHeader (Bytes.latin1 line) = false ∧ ∀ b ∈ line, b.toNat < 128

/-! ## Reading the head -/

theorem mem_latin1 {b : UInt8} {s : Bytes} (h : Char.ofNat b.toNat ∈ Bytes.latin1 s) : b ∈ s := by
  obtain ⟨c, hc, he⟩ := List.mem_map.mp h
  have hn := congrArg Char.toNat he
  rw [Bytes.toNat_latin1, Bytes.toNat_latin1] at hn
  exact UInt8.toNat_inj.mp hn ▸ hc

/-- Text on one line does not meet the line end behind it. -/
theorem not_crlf_infix {b : Bytes} (h : OnLine b) :
    ¬ crlf <:+: (Bytes.latin1 b ++ crlf).dropLast := by
  have hlf : '\n' ∉ Bytes.latin1 b := fun hm => h.2 (mem_latin1 (b := 10) hm)
  have hlast : (Bytes.latin1 b ++ crlf).dropLast = Bytes.latin1 b ++ ['\r'] := by
    rw [List.dropLast_append_of_ne_nil (by decide)]
    rfl
  rw [hlast]
  intro hi
  have hm : '\n' ∈ Bytes.latin1 b ++ ['\r'] := hi.subset (by decide)
  rw [List.mem_append, List.mem_singleton] at hm
  rcases hm with hm | hm
  · exact hlf hm
  · exact absurd hm (by decide)

namespace AbsoluteHead
variable (h : AbsoluteHead)

theorem allLines_ok : ∀ line ∈ h.allLines, line ≠ [] ∧ OnLine line := by
  intro line hl
  rcases List.mem_cons.mp hl with rfl | hl
  · have hm := h.method_ok.1
    have ht := h.target_ok.1
    have hv := h.version_ok
    refine ⟨by simp [requestLine], ?_, ?_⟩
    · simp [requestLine, hm.1, ht.1, hv.1]
    · simp [requestLine, hm.2, ht.2, hv.2]
  · exact h.lines_ok line hl

theorem bytes_append_headEnd : h.bytes ++ headEnd = block 13 10 h.allLines ++ [13, 10] := by
  have hblock : h.bytes ++ [13, 10] = block 13 10 h.allLines :=
    intercalate_append_end (List.cons_ne_nil h.requestLine h.lines)
  rw [← hblock, List.append_assoc]
  rfl

/-- The server finds the end of the head behind its last line. -/
def httpHead : HttpHead where
  bytes := h.bytes
  head?_ne := by
    obtain ⟨tail, ht⟩ := exists_intercalate_cons [13, 10] h.requestLine h.lines
    change ([13, 10].intercalate (h.requestLine :: h.lines)).head? ≠ _
    rw [ht, requestLine]
    cases hm : h.method with
    | nil => simp
    | cons b rest =>
        have := h.method_head
        rwa [hm] at this
  unended := by
    rw [bytes_append_headEnd]
    exact not_infix_block (by decide) fun line hl =>
      ⟨(h.allLines_ok line hl).1, (h.allLines_ok line hl).2.1⟩

theorem split_text : split h.httpHead.text crlf = h.allLines.map Bytes.latin1 := by
  change split (Bytes.latin1 h.bytes) crlf = _
  rw [bytes, apply_intercalate Bytes.latin1_append]
  refine split_intercalate (by decide) (by simp [allLines]) fun p hp => ?_
  obtain ⟨line, hl, rfl⟩ := List.mem_map.mp hp
  exact not_crlf_infix (h.allLines_ok line hl).2

theorem requestLine_split : ProxyServer.requestLine (split h.httpHead.text crlf) =
    (Bytes.latin1 h.method, some (Bytes.latin1 h.target)) := by
  have hm : ' ' ∉ Bytes.latin1 h.method := fun hs => h.method_ok.2 (mem_latin1 (b := 32) hs)
  have ht : ' ' ∉ Bytes.latin1 h.target := fun hs => h.target_ok.2 (mem_latin1 (b := 32) hs)
  have hline : Bytes.latin1 h.requestLine =
      Bytes.latin1 h.method ++ ' ' :: (Bytes.latin1 h.target ++ ' ' :: Bytes.latin1 h.version) := by
    simp only [AbsoluteHead.requestLine, Bytes.latin1, List.map_append, List.map_cons]
    rfl
  have hsplit : (Bytes.latin1 h.requestLine).splitOn ' ' = Bytes.latin1 h.method ::
      Bytes.latin1 h.target :: (Bytes.latin1 h.version).splitOn ' ' := by
    rw [hline, List.splitOn_append_cons_self_of_not_mem hm,
      List.splitOn_append_cons_self_of_not_mem ht]
  rw [split_text]
  simp only [ProxyServer.requestLine, allLines, List.map_cons, List.headD_cons, hsplit,
    List.head?_cons]

/-- The request that the server answers by connecting to the URL's host. -/
def request {Node : Type} {server : ProxyServer Node} {url : Url} {node : Option Node}
    (parsed : server.parseUrl (Bytes.latin1 h.target) = some url)
    (reached : server.connect url.hostname = some node) : AbsoluteRequest server where
  head := h.httpHead
  method := Bytes.latin1 h.method
  target := Bytes.latin1 h.target
  url := url
  node := node
  line := h.requestLine_split
  method_ne := fun he => h.method_ne (Bytes.latin1_injective (he.trans (by decide)))
  absolute := h.absolute
  parsed := parsed
  reached := reached

end AbsoluteHead

/-! ## Names -/

/-- No white space becomes a letter. -/
theorem isSpace_of_toLower {c : Char} (h : 97 ≤ c.toLower.toNat ∧ c.toLower.toNat < 123) :
    isSpace c = false := by
  have hc : 65 ≤ c.toNat ∧ c.toNat < 123 := by
    unfold Char.toLower at h
    split at h
    next hupper =>
      have hl : 65 ≤ c.toNat := UInt32.le_iff_toNat_le.mp hupper.1
      have hu : c.toNat ≤ 90 := UInt32.le_iff_toNat_le.mp hupper.2
      omega
    next => omega
  simp [isSpace]
  omega

/-- A header with one of the two names is one that the server leaves out. -/
theorem isConnectionHeader_of_isConnection {line : Bytes} (h : IsConnection line) :
    isConnectionHeader (Bytes.latin1 line) = true := by
  have hname : ∀ name : Text, (∀ c ∈ name.head?, 97 ≤ c.toNat ∧ c.toNat < 123) → name ≠ [] →
      headerName line = some name →
      startsWith ((trim (Bytes.latin1 line)).map Char.toLower) (name ++ [':']) = true := by
    intro name hhead hne hn
    obtain ⟨colon, hc, hm⟩ := Option.map_eq_some_iff.mp hn
    obtain ⟨hsplit, -⟩ := split_at_indexOf hc
    generalize (Bytes.latin1 line).take colon = front at hsplit hm
    generalize (Bytes.latin1 line).drop (colon + 1) = rest at hsplit
    cases front with
    | nil => exact absurd hm.symm hne
    | cons c front =>
        have hspace : isSpace c = false := isSpace_of_toLower (hhead c.toLower (by rw [← hm]; rfl))
        rw [hsplit, trim, List.cons_append, trimStart_cons hspace, ← List.cons_append,
          trimEnd_append (by decide), List.map_append, hm]
        exact List.isPrefixOf_iff_prefix.mpr ⟨(trimEnd rest).map Char.toLower, by simp⟩
  rw [isConnectionHeader, Bool.or_eq_true]
  rcases h with h | h
  · exact Or.inr (hname _ (by simp) (by decide) h)
  · exact Or.inl (hname _ (by simp) (by decide) h)

/-! ## Building the head -/

/-- The header lines that the server keeps. -/
def keptLines (lines : List Bytes) : List Bytes :=
  lines.filter fun line => !isConnectionHeader (Bytes.latin1 line)

theorem outbound_eq (h : AbsoluteHead) {url : Url}
    (hurl : ∀ c ∈ url.pathname ++ url.search, 32 < c.toNat ∧ c.toNat < 127) :
    outbound (Bytes.latin1 h.method) url (h.allLines.map Bytes.latin1) =
      Bytes.reencode h.method ++ 32 :: (Bytes.ofAscii (url.pathname ++ url.search) ++
        Bytes.ofAscii " HTTP/1.1\r\n".toList ++
        ([13, 10].intercalate ((keptLines h.lines).map Bytes.reencode) ++ [13, 10] ++
          closing)) := by
  have hpath : IsAscii (url.pathname ++ url.search) := fun c hc => by
    have := (hurl c hc).2
    omega
  have hkept : (h.allLines.map Bytes.latin1).tail.filter (fun line => !isConnectionHeader line) =
      (keptLines h.lines).map Bytes.latin1 := by
    rw [AbsoluteHead.allLines, List.map_cons, List.tail_cons, List.filter_map]
    rfl
  have hjoined : Bytes.utf8Encode (crlf.intercalate ((keptLines h.lines).map Bytes.latin1)) =
      [13, 10].intercalate ((keptLines h.lines).map Bytes.reencode) := by
    rw [apply_intercalate Bytes.utf8Encode_append, List.map_map]
    rfl
  have hprotocol : Bytes.utf8Encode " HTTP/1.1\r\n".toList = Bytes.ofAscii " HTTP/1.1\r\n".toList :=
    Bytes.utf8Encode_eq_ofAscii (by decide)
  have hclosing : Bytes.utf8Encode "\r\nConnection: close\r\n\r\n".toList = [13, 10] ++ closing :=
    Bytes.utf8Encode_eq_ofAscii (by decide)
  have hspace : Bytes.utf8Encode " ".toList = [32] := rfl
  rw [outbound, hkept, Bytes.utf8Encode_append, Bytes.utf8Encode_append, hjoined, hclosing,
    Bytes.utf8Encode_append, hprotocol, Bytes.utf8Encode_append _ (url.pathname ++ url.search),
    Bytes.utf8Encode_eq_ofAscii hpath, Bytes.utf8Encode_append, hspace]
  simp only [Bytes.reencode, List.append_assoc, List.cons_append, List.nil_append]

theorem keptLines_sublist (lines : List Bytes) :
    List.Sublist (keptLines lines) (otherLines lines) := by
  refine List.monotone_filter_right lines fun line hk => ?_
  rw [decide_eq_true_eq]
  intro hc
  rw [isConnectionHeader_of_isConnection hc] at hk
  cases hk

/-- Behind the request line, the server sends the lines that should be kept exactly when it
sends a line, leaves out none of them, and changes none. -/
theorem joined_eq_iff (h : AbsoluteHead) :
    [13, 10].intercalate ((keptLines h.lines).map Bytes.reencode) ++ [13, 10] =
        block 13 10 (otherLines h.lines) ↔
      otherLines h.lines ≠ [] ∧ keptLines h.lines = otherLines h.lines ∧
        ∀ line ∈ otherLines h.lines, Bytes.reencode line = line := by
  have hok : ∀ line ∈ otherLines h.lines, line ≠ [] ∧ 13 ∉ line := fun line hl =>
    let ⟨hne, hon⟩ := h.lines_ok line (List.mem_filter.mp hl).1
    ⟨hne, hon.1⟩
  constructor
  · intro he
    by_cases hnil : keptLines h.lines = []
    · rw [hnil] at he
      have hend : [13, 10] = block 13 10 (otherLines h.lines) := he
      exact absurd ⟨[13], congrArg (· ++ [13]) hend⟩ (not_prefix_block hok)
    · have hmap : (keptLines h.lines).map Bytes.reencode ≠ [] := by simpa using hnil
      rw [intercalate_append_end hmap] at he
      have hlines : (keptLines h.lines).map Bytes.reencode = otherLines h.lines := by
        have hblocks : block 13 10 ((keptLines h.lines).map Bytes.reencode) ++ [] =
            block 13 10 (otherLines h.lines) ++ [] := by rw [he]
        refine block_inj (fun line hl => ?_) (fun line hl => (hok line hl).2) hblocks
        obtain ⟨line, hk, rfl⟩ := List.mem_map.mp hl
        exact fun hm => (hok line ((keptLines_sublist _).mem hk)).2
          (Bytes.mem_of_mem_reencode (by decide) hm)
      have hall : keptLines h.lines = otherLines h.lines := by
        refine (keptLines_sublist _).eq_of_length ?_
        rw [← hlines, List.length_map]
      rw [hall] at hlines hnil
      exact ⟨hnil, hall, List.map_eq_map_iff.mp (hlines.trans (List.map_id _).symm)⟩
  · intro hkept
    obtain ⟨hne, hall, hsame⟩ := hkept
    have hmap : (otherLines h.lines).map Bytes.reencode = otherLines h.lines :=
      (List.map_congr_left hsame).trans (List.map_id _)
    rw [hall, hmap, intercalate_append_end hne]

theorem keptLines_eq_iff (lines : List Bytes) :
    keptLines lines = otherLines lines ↔
      ∀ line ∈ lines, ¬ IsConnection line → isConnectionHeader (Bytes.latin1 line) = false := by
  constructor
  · intro he line hl hc
    have hm : line ∈ keptLines lines := by
      rw [he]
      exact List.mem_filter.mpr ⟨hl, decide_eq_true hc⟩
    simpa using (List.mem_filter.mp hm).2
  · intro hall
    refine List.filter_congr fun line hl => ?_
    by_cases hc : IsConnection line
    · simp [hc, isConnectionHeader_of_isConnection hc]
    · simp [hc, hall line hl hc]

theorem survives_iff (h : AbsoluteHead) :
    Survives h ↔ Bytes.reencode h.method = h.method ∧ otherLines h.lines ≠ [] ∧
      keptLines h.lines = otherLines h.lines ∧
      ∀ line ∈ otherLines h.lines, Bytes.reencode line = line := by
  have hne : otherLines h.lines ≠ [] ↔ ∃ line ∈ h.lines, ¬ IsConnection line := by
    simp [otherLines]
  rw [Bytes.reencode_eq_iff, hne, keptLines_eq_iff]
  constructor
  · intro hs
    refine ⟨hs.method, hs.some_kept, fun line hl hc => (hs.kept line hl hc).1, fun line hl => ?_⟩
    obtain ⟨hl, hc⟩ := List.mem_filter.mp hl
    exact (Bytes.reencode_eq_iff line).mpr (hs.kept line hl (of_decide_eq_true hc)).2
  · intro hs
    obtain ⟨hm, hsome, hall, hsame⟩ := hs
    refine ⟨hm, hsome, fun line hl hc => ⟨hall line hl hc, ?_⟩⟩
    exact (Bytes.reencode_eq_iff line).mp
      (hsame line (List.mem_filter.mpr ⟨hl, decide_eq_true hc⟩))

/-- The head is rewritten faithfully exactly when a header is kept, and what should be kept is
ASCII and none of it is left out. -/
theorem originHead_iff (h : AbsoluteHead) {url : Url}
    (hurl : ∀ c ∈ url.pathname ++ url.search, 32 < c.toNat ∧ c.toNat < 127) :
    outbound (Bytes.latin1 h.method) url (h.allLines.map Bytes.latin1) = originHead h url ↔
      Survives h := by
  have hspace : ∀ {b : Bytes}, 32 ∉ b → 32 ∉ Bytes.reencode b := fun hb hm =>
    hb (Bytes.mem_of_mem_reencode (by decide) hm)
  rw [outbound_eq h hurl, originHead]
  constructor
  · intro he
    obtain ⟨hmethod, htail⟩ := append_cons_inj (hspace h.method_ok.2) h.method_ok.2 he
    rw [List.append_cancel_left_eq, List.append_cancel_right_eq] at htail
    exact (survives_iff h).mpr ⟨hmethod, (joined_eq_iff h).mp htail⟩
  · intro hs
    obtain ⟨hmethod, hjoined⟩ := (survives_iff h).mp hs
    rw [hmethod, (joined_eq_iff h).mpr hjoined]

/-! ## The head that is sent -/

/-- The lines of the head in origin form. -/
def originLines (h : AbsoluteHead) (url : Url) : List Bytes :=
  (h.method ++ 32 :: (Bytes.ofAscii (url.pathname ++ url.search) ++
    Bytes.ofAscii " HTTP/1.1".toList)) ::
      (otherLines h.lines ++ [Bytes.ofAscii "Connection: close".toList])

theorem originHead_eq_block (h : AbsoluteHead) (url : Url) :
    originHead h url = block 13 10 (originLines h url) ++ [13, 10] := by
  have hprotocol : Bytes.ofAscii " HTTP/1.1\r\n".toList =
      Bytes.ofAscii " HTTP/1.1".toList ++ [13, 10] := by decide
  have hclosing : closing = block 13 10 [Bytes.ofAscii "Connection: close".toList] ++ [13, 10] := by
    decide
  rw [originHead, originLines, block_cons, hprotocol, hclosing, block_append]
  simp only [List.append_assoc, List.cons_append, List.nil_append]

/-- The head in origin form ends at its first empty line. -/
theorem originHead_unended (h : AbsoluteHead) {url : Url}
    (hurl : ∀ c ∈ url.pathname ++ url.search, 32 < c.toNat ∧ c.toNat < 127) :
    ¬ headEnd <:+: (originHead h url).dropLast := by
  rw [originHead_eq_block]
  refine not_infix_block (by decide) fun line hl => ?_
  rw [originLines, List.mem_cons, List.mem_append, List.mem_singleton] at hl
  rcases hl with rfl | hl | rfl
  · have hpath : 13 ∉ Bytes.ofAscii (url.pathname ++ url.search) := by
      intro hm
      obtain ⟨c, hc, he⟩ := List.mem_map.mp hm
      have hn := congrArg UInt8.toNat he
      rw [UInt8.toNat_ofNat'] at hn
      have := hurl c hc
      have h13 : (13 : UInt8).toNat = 13 := rfl
      omega
    have hprotocol : 13 ∉ Bytes.ofAscii " HTTP/1.1".toList := by decide
    refine ⟨by simp, ?_⟩
    simp only [List.mem_append, List.mem_cons, not_or]
    exact ⟨h.method_ok.1.1, by decide, hpath, hprotocol⟩
  · obtain ⟨hne, hon⟩ := h.lines_ok line (List.mem_filter.mp hl).1
    exact ⟨hne, hon.1⟩
  · decide

/-- However a request head comes in, what goes upstream is its origin form exactly when the
head survives the rewriting. -/
theorem faithful_iff {Node : Type} {server : ProxyServer Node}
    (hurl : SerializesUrls server.parseUrl) (h : AbsoluteHead) {url : Url} {node : Option Node}
    (parsed : server.parseUrl (Bytes.latin1 h.target) = some url)
    (reached : server.connect url.hostname = some node)
    (o : Sending (h.request parsed reached)) (late : List Bytes) :
    Faithful h url (server.run (o.chunks.map .data ++ .connected :: late.map .data)).toFace ↔
      Survives h := by
  have hchars := hurl _ url h.absolute parsed
  have hsent : (h.request parsed reached).rewritten =
      outbound (Bytes.latin1 h.method) url (h.allLines.map Bytes.latin1) := by
    rw [← h.split_text]
    rfl
  rw [absolute_toFace, hsent, Faithful, ← originHead_iff h hchars]
  refine and_iff_left_of_imp fun he => ?_
  rw [he]
  exact originHead_unended h hchars

/-- `GET http://a/ HTTP/1.1` with these header lines. -/
def getHead (lines : List Bytes) (lines_ok : ∀ line ∈ lines, line ≠ [] ∧ OnLine line) :
    AbsoluteHead where
  method := Bytes.ofAscii "GET".toList
  target := Bytes.ofAscii "http://a/".toList
  version := Bytes.ofAscii "HTTP/1.1".toList
  lines := lines
  method_ok := by decide
  target_ok := by decide
  version_ok := by decide
  lines_ok := lines_ok
  method_ne := by decide
  method_head := by decide
  absolute := by decide

/-- The head comes in one chunk. -/
def atOnce {Node : Type} {server : ProxyServer Node} (r : AbsoluteRequest server) : Sending r where
  chunks := [r.head.encode]
  early := []
  nonempty := by simp [HttpHead.encode, headEnd]
  sends := by simp

theorem directServer_serializes : SerializesUrls directServer.parseUrl := by
  intro target url _ hp
  cases hp
  simp

/-- The head of a request without headers ends in front of the one that is added. -/
theorem bare_head_ends_early :
    ¬ ∀ (h : AbsoluteHead) (url : Url) (node : Option Unit)
      (parsed : directServer.parseUrl (Bytes.latin1 h.target) = some url)
      (reached : directServer.connect url.hostname = some node)
      (o : Sending (h.request parsed reached)) (late : List Bytes),
      Faithful h url
        (directServer.run (o.chunks.map .data ++ .connected :: late.map .data)).toFace := by
  intro hall
  let h := getHead [] (by decide)
  have hs : Survives h := (faithful_iff directServer_serializes h rfl rfl (atOnce _) []).mp
    (hall h _ none rfl rfl (atOnce _) [])
  obtain ⟨line, hl, -⟩ := hs.some_kept
  cases hl

/-- A request that names its host and asks for the connection to be kept. -/
def hostHead : AbsoluteHead :=
  getHead [Bytes.ofAscii "Host: a".toList, Bytes.ofAscii "connection: keep".toList] (by decide)

theorem host_head_faithful :
    Faithful hostHead ⟨"a".toList, [], "/".toList, []⟩
      (directServer.run [.data hostHead.httpHead.encode, .connected]).toFace :=
  (faithful_iff directServer_serializes hostHead rfl rfl (atOnce _) []).mpr
    { method := by simp [hostHead, getHead, Bytes.ofAscii]
      some_kept := ⟨_, List.mem_cons_self, by decide⟩
      kept := List.forall_mem_cons.mpr ⟨fun _ => ⟨by decide, by simp [Bytes.ofAscii]⟩,
        List.forall_mem_singleton.mpr fun h => absurd (by decide) h⟩ }

end DshClashProxy.Core.RequestHead
