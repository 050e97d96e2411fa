import DshClashProxy.Core.ProxyLink
import DshClashProxy.Core.RequestHead
import DshClashProxy.Js.Base64

/-!
# Servers in a chain

A node of type `http` or `socks5` may be another such server. An HTTP CONNECT comes through in any
segments. A SOCKS5 message comes through where each arrives in one event.
-/
namespace DshClashProxy.Core.ProxyChain

open Js Js.Text ProxyServer Client Lib.ByteSource Lib.Carriers Lib.Lines Routing Connectors
open ProxyLink
open Handshakes (Credentials HttpReply httpRequest socks5Hello)

/-! ## The request of `httpConnect` -/

/-- A host that a request line can name. -/
structure InLine (host : Text) : Prop where
  ne_nil : host ≠ []
  ascii : IsAscii host
  spaceless : ' ' ∉ host
  onLine : '\r' ∉ host

def authority (host : Text) (port : Nat) : Text := host ++ ':' :: decimal port

/-- The lines of the request. -/
def requestLines (node : Credentials) (target : Text) : List Text :=
  ("CONNECT ".toList ++ target ++ " HTTP/1.1".toList) :: ("Host: ".toList ++ target) ::
    if node.given then
      ["Proxy-Authorization: Basic ".toList ++ Bytes.base64 (Bytes.utf8Encode
        (node.username.getD [] ++ ':' :: node.password.getD []))]
    else []

theorem decimal_digit {n : Nat} {c : Char} (h : c ∈ decimal n) :
    c.toNat < 128 ∧ c ≠ ' ' ∧ c ≠ '\r' := by
  have hd := Nat.isDigit_of_mem_toDigits (by decide) (by decide) h
  simp only [Char.isDigit, Bool.and_eq_true, decide_eq_true_eq, UInt32.le_iff_toNat_le] at hd
  have hhigh : c.toNat ≤ 57 := hd.2
  have hlow : 48 ≤ c.toNat := hd.1
  refine ⟨by omega, ?_, ?_⟩
  · rintro rfl
    exact absurd hlow (by decide)
  · rintro rfl
    exact absurd hlow (by decide)

theorem authority_char {host : Text} (h : InLine host) {port : Nat} {c : Char}
    (hc : c ∈ authority host port) : c.toNat < 128 ∧ c ≠ ' ' ∧ c ≠ '\r' := by
  rcases List.mem_append.mp hc with hc | hc
  · refine ⟨h.ascii c hc, ?_, ?_⟩
    · rintro rfl
      exact h.spaceless hc
    · rintro rfl
      exact h.onLine hc
  · rcases List.mem_cons.mp hc with rfl | hc
    · decide +kernel
    · exact decimal_digit hc

theorem base64_char {b : Bytes} {c : Char} (h : c ∈ Bytes.base64 b) :
    c.toNat < 128 ∧ c ≠ '\r' := by
  rcases Bytes.mem_base64 h with rfl | ⟨n, hn, rfl⟩
  · decide +kernel
  · have hall : ∀ n < 64, (Bytes.base64Digit n).toNat < 128 ∧ Bytes.base64Digit n ≠ '\r' := by
      decide +kernel
    exact hall n hn

/-- Every line is ASCII and stays on its line. -/
theorem requestLines_char (node : Credentials) {target : Text}
    (ht : ∀ c ∈ target, c.toNat < 128 ∧ c ≠ '\r') {line : Text}
    (hl : line ∈ requestLines node target) : ∀ c ∈ line, c.toNat < 128 ∧ c ≠ '\r' := by
  intro c hc
  have hconst : ∀ s ∈ ["CONNECT ".toList, " HTTP/1.1".toList, "Host: ".toList,
      "Proxy-Authorization: Basic ".toList], ∀ c ∈ s, c.toNat < 128 ∧ c ≠ '\r' := by
    simp
  rcases List.mem_cons.mp hl with rfl | hl
  · rcases List.mem_append.mp hc with hc | hc
    · rcases List.mem_append.mp hc with hc | hc
      · exact hconst _ (by simp) c hc
      · exact ht c hc
    · exact hconst _ (by simp) c hc
  rcases List.mem_cons.mp hl with rfl | hl
  · rcases List.mem_append.mp hc with hc | hc
    · exact hconst _ (by simp) c hc
    · exact ht c hc
  · split at hl
    · rw [List.mem_singleton.mp hl] at hc
      rcases List.mem_append.mp hc with hc | hc
      · exact hconst _ (by simp) c hc
      · exact base64_char hc
    · cases hl

/-- The request is its lines and the empty one behind them. -/
theorem httpRequest_eq (node : Credentials) (host : Text) (port : Nat) :
    httpRequest node host (decimal port) =
      Bytes.utf8Encode (block '\r' '\n' (requestLines node (authority host port)) ++ crlf) := by
  have hnil : block '\r' '\n' [] = [] := rfl
  have hlines : " HTTP/1.1\r\nHost: ".toList =
      " HTTP/1.1".toList ++ '\r' :: '\n' :: "Host: ".toList := rfl
  have hcrlf : crlf = ['\r', '\n'] := rfl
  rw [httpRequest, requestLines, authority, hlines, hcrlf]
  congr 1
  split
  · simp only [block_cons, hnil, List.append_assoc, List.cons_append, List.nil_append]
  · simp only [block_cons, hnil, List.append_assoc, List.cons_append, List.nil_append]

/-- A byte of an ASCII text is that of its character. -/
theorem mem_ofAscii {s : Text} (h : IsAscii s) {c : Char} (hc : c.toNat < 128)
    (hm : UInt8.ofNat c.toNat ∈ Bytes.ofAscii s) : c ∈ s := by
  obtain ⟨d, hd, he⟩ := List.mem_map.mp hm
  have hn := congrArg UInt8.toNat he
  rw [UInt8.toNat_ofNat', UInt8.toNat_ofNat', Nat.mod_eq_of_lt ((h d hd).trans (by decide)),
    Nat.mod_eq_of_lt (hc.trans (by decide))] at hn
  exact Char.toNat_inj.mp hn ▸ hd

/-- The lines of a request for this target. -/
structure Lines (lines : List Text) : Prop where
  ne_nil : lines ≠ []
  char : ∀ line ∈ lines, ∀ c ∈ line, c.toNat < 128 ∧ c ≠ '\r'
  full : ∀ line ∈ lines, line ≠ []

theorem lines_request (node : Credentials) {host : Text} (h : InLine host) (port : Nat) :
    Lines (requestLines node (authority host port)) where
  ne_nil := List.cons_ne_nil _ _
  char _ hl := requestLines_char node
    (fun _ hc => ⟨(authority_char h hc).1, (authority_char h hc).2.2⟩) hl
  full line hl := by
    rcases List.mem_cons.mp hl with rfl | hl
    · exact List.cons_ne_nil _ _
    rcases List.mem_cons.mp hl with rfl | hl
    · exact List.cons_ne_nil _ _
    · split at hl
      · rw [List.mem_singleton.mp hl]
        exact List.cons_ne_nil _ _
      · cases hl

theorem ofAscii_block (lines : List Text) :
    Bytes.ofAscii (block '\r' '\n' lines) = block 13 10 (lines.map Bytes.ofAscii) := by
  rw [Bytes.ofAscii, block, block, List.map_flatMap, List.flatMap_map]
  refine List.flatMap_congr fun line _ => ?_
  rw [List.map_append]
  rfl

/-- The head that such lines make. -/
def headOf {lines : List Text} (h : Lines lines)
    (hfirst : (lines.map Bytes.ofAscii).flatten.head? ≠ some 0x05) : HttpHead where
  bytes := [13, 10].intercalate (lines.map Bytes.ofAscii)
  head?_ne := by
    cases lines with
    | nil => exact absurd rfl h.ne_nil
    | cons line rest =>
        obtain ⟨tail, ht⟩ := exists_intercalate_cons [13, 10] (Bytes.ofAscii line)
          (rest.map Bytes.ofAscii)
        obtain ⟨c, more, hline⟩ := List.exists_cons_of_ne_nil (h.full line List.mem_cons_self)
        rw [List.map_cons, ht, hline]
        rw [hline] at hfirst
        exact hfirst
  unended := by
    have hne : lines.map Bytes.ofAscii ≠ [] := fun he => h.ne_nil (List.map_eq_nil_iff.mp he)
    have hhead : [13, 10].intercalate (lines.map Bytes.ofAscii) ++ headEnd =
        block 13 10 (lines.map Bytes.ofAscii) ++ [13, 10] := by
      rw [← intercalate_append_end hne, List.append_assoc]
      rfl
    rw [hhead]
    refine not_infix_block (by decide) fun b hb => ?_
    obtain ⟨line, hl, rfl⟩ := List.mem_map.mp hb
    refine ⟨fun he => h.full line hl (List.map_eq_nil_iff.mp he), fun hcr => ?_⟩
    have hm := mem_ofAscii (c := '\r') (fun c hc => (h.char line hl c hc).1) (by decide) hcr
    exact (h.char line hl '\r' hm).2 rfl

section
variable {lines : List Text} (h : Lines lines)
  (hfirst : (lines.map Bytes.ofAscii).flatten.head? ≠ some 0x05)

theorem headOf_encode : (headOf h hfirst).encode =
    Bytes.utf8Encode (block '\r' '\n' lines ++ crlf) := by
  have hne : lines.map Bytes.ofAscii ≠ [] := fun he => h.ne_nil (List.map_eq_nil_iff.mp he)
  have hends : ∀ c ∈ crlf, c.toNat < 128 := by simp [crlf]
  have hascii : IsAscii (block '\r' '\n' lines ++ crlf) := by
    intro c hc
    rcases List.mem_append.mp hc with hc | hc
    · obtain ⟨line, hl, hc⟩ := List.mem_flatMap.mp hc
      rcases List.mem_append.mp hc with hc | hc
      · exact (h.char line hl c hc).1
      · exact hends c hc
    · exact hends c hc
  have happend : Bytes.ofAscii (block '\r' '\n' lines ++ crlf) =
      Bytes.ofAscii (block '\r' '\n' lines) ++ [13, 10] := List.map_append
  rw [Bytes.utf8Encode_eq_ofAscii hascii, happend, ofAscii_block, ← intercalate_append_end hne,
    List.append_assoc]
  rfl

theorem headOf_split : split (headOf h hfirst).text crlf = lines := by
  have htext : (headOf h hfirst).text = crlf.intercalate lines := by
    change Bytes.latin1 ([13, 10].intercalate (lines.map Bytes.ofAscii)) = _
    rw [apply_intercalate Bytes.latin1_append, List.map_map]
    have hid : lines.map (Bytes.latin1 ∘ Bytes.ofAscii) = lines :=
      (List.map_congr_left fun line hl =>
        Bytes.latin1_ofAscii fun c hc => (h.char line hl c hc).1).trans (List.map_id lines)
    rw [hid]
    rfl
  rw [htext]
  refine split_intercalate (by decide) h.ne_nil fun line hl hi => ?_
  have hcr : '\r' ∉ line := fun hm => (h.char line hl '\r' hm).2 rfl
  have hlast : (line ++ crlf).dropLast = line ++ ['\r'] := by
    rw [List.dropLast_append_of_ne_nil (by decide)]
    rfl
  rw [hlast] at hi
  exact absurd ((infix_append_iff hcr).mp hi).length_le (by decide)

end

/-! ## An HTTP server behind -/

variable {Node : Type} {site : Site} {current : Option Node}

/-- The words of `httpConnect`, with the target they name. -/
def http (node : Credentials) (host : Text) (port : Nat) : Dialect where
  connector := httpConnect node host (.finite port)
  messages := [httpRequest node host (decimal port)]
  host
  port := .finite port
  reply := .connect
  refusals := [badGateway]

variable (Node) in
/-- Any front of the request may have come in. -/
inductive AskingHttp (request : Bytes) : Asking Node where
  | first : AskingHttp request [] .first []
  | head {given : Bytes} (hne : given ≠ []) (hpre : given <+: request) (hlt : given ≠ request) :
      AskingHttp request given (.head given) []

theorem requestHead_first (node : Credentials) (target : Text) :
    ((requestLines node target).map Bytes.ofAscii).flatten.head? ≠ some 0x05 :=
  show some (67 : UInt8) ≠ some 0x05 by decide

/-- The head of the request. -/
def requestHead (node : Credentials) {host : Text} (h : InLine host) (port : Nat) : HttpHead :=
  headOf (lines_request node h port) (requestHead_first node _)

theorem requestHead_encode (node : Credentials) {host : Text} (h : InLine host) (port : Nat) :
    (requestHead node h port).encode = httpRequest node host (decimal port) :=
  (headOf_encode _ _).trans (httpRequest_eq node host port).symm

/-- The server takes the target out of the head. -/
theorem handleHead_request (server : ProxyServer Node) (c : Conn Node) (node : Credentials)
    {host : Text} (h : InLine host) (port : Nat) :
    server.handleHead c (requestHead node h port).text =
      server.handleConnect c (authority host port) := by
  have hspace : ' ' ∉ authority host port := fun hm => (authority_char h hm).2.1 rfl
  have hline : ("CONNECT ".toList ++ authority host port ++ " HTTP/1.1".toList).splitOn ' ' =
      ["CONNECT".toList, authority host port, "HTTP/1.1".toList] := by
    have hparts : "CONNECT ".toList ++ authority host port ++ " HTTP/1.1".toList =
        "CONNECT".toList ++ ' ' :: (authority host port ++ ' ' :: "HTTP/1.1".toList) := by
      rw [List.append_assoc]
      rfl
    rw [hparts, List.splitOn_append_cons_self_of_not_mem (by decide),
      List.splitOn_append_cons_self_of_not_mem hspace,
      List.splitOn_eq_singleton (by decide)]
  have hrequest : requestLine (requestLines node (authority host port)) =
      ("CONNECT".toList, some (authority host port)) := by
    rw [requestLine, requestLines, List.headD_cons, hline]
    rfl
  have hsplit : split (requestHead node h port).text crlf =
      requestLines node (authority host port) := headOf_split _ _
  simp only [handleHead, hsplit, hrequest, if_true]

theorem digitValue_digit {c : Char} (h : Char.isDigit c = true) :
    Number.digitValue c = c.toNat - 48 ∧ c.toNat - 48 < 10 := by
  have hc : 48 ≤ c.toNat ∧ c.toNat ≤ 57 := Char.isDigit_iff_toNat.mp h
  rw [Number.digitValue]
  simp only [hc, decide_true, Bool.and_self, if_true, true_and]
  omega

theorem ofDigits_digits {s : Text} (h : ∀ c ∈ s, Char.isDigit c = true) (n : Nat) :
    s.foldl (fun n c => n * 10 + Number.digitValue c) n = Nat.ofDigitChars 10 s n := by
  induction s generalizing n with
  | nil => rfl
  | cons c s ih =>
      have hstep : n * 10 + Number.digitValue c = 10 * n + (c.toNat - '0'.toNat) := by
        rw [(digitValue_digit (h c List.mem_cons_self)).1, Nat.mul_comm]
        rfl
      rw [List.foldl_cons, hstep, ih fun d hd => h d (List.mem_cons_of_mem c hd),
        Nat.ofDigitChars_cons]

/-- A port reads back. -/
theorem ofText_decimal {port : Nat} (hp : port < 65536) :
    Number.ofText (decimal port) = .finite port := by
  have hdigit : ∀ c ∈ decimal port, Char.isDigit c = true := fun c hc =>
    Nat.isDigit_of_mem_toDigits (by decide) (by decide) hc
  have hlen : (decimal port).length ≤ 15 :=
    (Nat.length_toDigits_le_iff (by decide) (by decide)).mpr (hp.trans (by decide))
  have hvalue : Number.ofDigits 10 (decimal port) = port := by
    rw [Number.ofDigits, ofDigits_digits hdigit]
    exact Nat.ofDigitChars_ten_toDigits
  have hne : decimal port ≠ [] := Nat.toDigits_ne_nil
  have hall : ∀ c ∈ decimal port, Number.isDigit 10 c = true := by
    intro c hc
    obtain ⟨hv, hlt⟩ := digitValue_digit (hdigit c hc)
    rw [Number.isDigit, hv]
    exact decide_eq_true hlt
  rw [Number.ofText_of_digits hne hall hlen, hvalue]

theorem handleConnect_authority (server : ProxyServer Node) (c : Conn Node) {host : Text}
    (h : InLine host) {port : Nat} (hp : port < 65536) :
    server.handleConnect c (authority host port) =
      (server.connect host).elim ((c.extract host (.finite port)).end badGateway) fun node =>
        (c.extract host (.finite port)).setStage
          (.connecting node host (.finite port) .connect) := by
  rw [handleConnect, authority, InboundHost.connectTarget_authority h.ne_nil, ofText_decimal hp]
  simp only
  cases server.connect host <;> rfl

theorem request_http (node : Credentials) (host : Text) (port : Nat) :
    (http node host port).request = httpRequest node host (decimal port) :=
  List.flatten_singleton

/-- What the server makes of a front of the request. -/
theorem serves_head (node : Credentials) {host : Text} (h : InLine host) {port : Nat}
    (hp : port < 65536) {k : Client Node} (hq : Quiet k.conn []) (hx : k.conn.extracted = none)
    (hs : k.conn.stage ≠ .relaying) {buffer : Bytes} (hne : buffer ≠ [])
    (hpre : buffer <+: httpRequest node host (decimal port)) {chunk : Bytes}
    (hstep : (site.server current).step k.conn (.data chunk) =
      (site.server current).readHttpHead k.conn buffer) :
    Serves (http node host port) (AskingHttp Node (httpRequest node host (decimal port)))
      (k.step site current (.data chunk)) buffer := by
  have hencode := requestHead_encode node h port
  by_cases hfull : buffer = httpRequest node host (decimal port)
  · have hdone : (k.step site current (.data chunk)).conn =
        (((site.server current).connect host).elim
          ((k.conn.extract host (.finite port)).end badGateway) fun node =>
            (k.conn.extract host (.finite port)).setStage
              (.connecting node host (.finite port) .connect)).setBehind [] := by
      refine hstep.trans ?_
      have hcomplete : (site.server current).readHttpHead k.conn
          ((requestHead node h port).encode ++ []) = _ :=
        Inbound.readHttpHead_complete hs (requestHead node h port) []
      rw [List.append_nil, hencode, ← hfull, handleHead_request, handleConnect_authority _ _ h hp]
        at hcomplete
      exact hcomplete
    have hquiet := hq.extract host (.finite port)
    cases hc : (site.server current).connect host with
    | none =>
        rw [hc] at hdone
        refine .left ?_ (List.mem_singleton_self badGateway) ?_ fun target ht => ?_
        · rw [hdone]
          rfl
        · rw [hdone]
          exact (hquiet.end badGateway).setBehind []
        · rw [hdone] at ht
          have hext := end_extracted (k.conn.extract host (.finite port)) badGateway
          exact (Option.some.inj (hext.symm.trans ht)).symm
    | some node' =>
        rw [hc] at hdone
        refine .dialling node' ?_ ?_ ?_ (hfull.trans (request_http node host port).symm)
        · rw [hdone]
          rfl
        · rw [hdone]
          exact (hquiet.setStage _).setBehind []
        · rw [hdone]
          rfl
  · have hno : ¬ headEnd <:+: buffer := by
      intro hi
      have hle : buffer <+: (requestHead node h port).encode ++ [] := by
        rw [List.append_nil, hencode]
        exact hpre
      have hall := Inbound.encode_prefix hle hi
      rw [hencode] at hall
      exact hfull (hpre.eq_of_length_le hall.length_le)
    have hmore : (k.step site current (.data chunk)).conn = k.conn.setStage (.head buffer) :=
      hstep.trans (Inbound.readHttpHead_incomplete _ hno)
    refine .asking (.head hne hpre hfull) ?_ ?_ ?_
    · rw [hmore]
      rfl
    · rw [hmore]
      exact hq.setStage _
    · rw [hmore]
      exact hx

def establishedReply : HttpReply where
  head := Bytes.ofAscii "HTTP/1.1 200 Connection Established".toList
  version := "HTTP/1.1".toList
  code := "200".toList
  rest := " Connection Established".toList
  text_eq := by decide +kernel
  plain := by simp
  ends := .inr (.inl ⟨_, rfl⟩)
  unended := by decide +kernel
  length_le := by decide +kernel

def gatewayReply : HttpReply where
  head := Bytes.ofAscii "HTTP/1.1 502 Bad Gateway".toList
  version := "HTTP/1.1".toList
  code := "502".toList
  rest := " Bad Gateway".toList
  text_eq := by decide +kernel
  plain := by simp
  ends := .inr (.inl ⟨_, rfl⟩)
  unended := by decide +kernel
  length_le := by decide +kernel

theorem established_encode : establishedReply.encode = established := by decide +kernel

theorem gateway_encode : gatewayReply.encode = badGateway := by decide +kernel

theorem toText_port {port : Nat} (hp : port < 65536) :
    (Number.finite port).toText = decimal port :=
  Number.toText_natCast (hp.trans (by decide))

theorem welcomed_http (node : Credentials) (host : Text) {port : Nat} (hp : port < 65536) :
    Source.Consumes (runOn (Source.ofList UInt8) (http node host port).connector [])
      (http node host port).welcome ((), (http node host port).messages) := by
  have hreply : Source.Consumes (Handshakes.httpConnect node host (decimal port) :
      (Source.ofList UInt8).Reads Text (List Bytes)) established _ :=
    established_encode ▸ Handshakes.consumes_httpConnect node host (decimal port)
      (r := establishedReply) ⟨rfl, by decide +kernel, by decide +kernel, by decide +kernel⟩
  change Source.Consumes (runOn _ (httpConnect node host (.finite port)) []) established _
  rw [runOn_httpConnect, toText_port hp]
  exact hreply.bind_nil (Source.consumes_pure _)

/-- The function throws on the answer of a server that does not reach the target. -/
theorem refused_http (node : Credentials) (host : Text) (port : Nat) (sent : List Bytes)
    (rest : Bytes) : onList (runOn _ (http node host port).connector []) badGateway ≠
      some (.ok ((), sent), rest) := by
  have hread := onList_consumes (Handshakes.consumes_readUntilCrlfCrlf gatewayReply) []
  rw [List.append_nil, gateway_encode] at hread
  have hcode := Handshakes.statusLine_code gatewayReply
  have hstatus : (Number.ofText gatewayReply.code).lt 200 ||
      Number.le 300 (Number.ofText gatewayReply.code) := by decide +kernel
  change onList (runOn _ (httpConnect node host (.finite port)) []) badGateway ≠ _
  rw [runOn_httpConnect, onList_bind, Handshakes.httpConnect, onList_bind, hread]
  simp only [hcode, hstatus, if_true]
  intro h
  cases h

theorem speaks_http (node : Credentials) {host : Text} (h : InLine host) {port : Nat}
    (hp : port < 65536) : (http node host port).Speaks site False
      (AskingHttp Node (httpRequest node host (decimal port))) where
  welcomed := welcomed_http node host hp
  refused told ht sent rest := by
    rw [List.mem_singleton.mp ht]
    exact refused_http node host port sent rest
  failed := List.mem_singleton_self badGateway
  tunnels _ ht := by cases ht
  begins := .first
  waits ha := by
    cases ha with
    | first => exact ⟨List.prefix_rfl, .inl rfl⟩
    | head hne hpre hlt => exact ⟨List.prefix_rfl, .inr (.inr ⟨_, rfl⟩)⟩
  hears {k current given chunk heard stage told sent q} ha hs hq hx _ _ hsent hne hpre _ := by
    rw [request_http] at hsent
    have hfront := hpre.trans hsent
    have hnext : given ++ chunk ≠ [] := List.append_ne_nil_of_right_ne_nil _ hne
    cases ha with
    | first =>
        refine serves_head node h hp hq hx (by rw [hs]; simp) hnext hfront ?_
        have hfirst : chunk.head? ≠ some 0x05 := by
          obtain ⟨c, rest, rfl⟩ := List.exists_cons_of_ne_nil hne
          obtain ⟨more, hmore⟩ := hfront
          have hc : c = 67 := by
            rw [httpRequest_eq, requestLines, block_cons] at hmore
            injection hmore
          rw [hc]
          exact fun hn => absurd (Option.some.inj hn) (by decide)
        rw [step, data, hs]
        exact if_neg hfirst
    | head hg hpre' hlt =>
        refine serves_head node h hp hq hx (by rw [hs]; simp) hnext hfront ?_
        rw [step, data, hs]

/-- In every run of a link to an HTTP server both directions deliver, however the request and what
follows it are cut. -/
theorem http_delivers (site : Site) (node : Credentials) {host : Text} (h : InLine host)
    {port : Nat} (hp : port < 65536) (turns : List (Turn Node)) :
    Delivers (http node host port) site
      (({ connector := httpConnect node host (.finite port) } : Link Node).run site turns) :=
  run_delivers (speaks_http node h hp) fun hw => hw.elim

theorem connected_ne_data (chunk : Bytes) : Event.connected ≠ .data chunk := nofun

theorem upstream_ne_data (b chunk : Bytes) : Event.upstream b ≠ .data chunk := nofun

/-- The request comes in two segments, and a byte goes each way behind the handshake. -/
def localTurns : List (Turn Unit) :=
  [.advance, .segment (some ()) (some 10), .segment (some ()) none,
    .event none .connected connected_ne_data, .arrive 64] ++ List.replicate 40 .advance ++
    [.write [0x21], .segment none none, .event none (.upstream [0x3f]) (upstream_ne_data [0x3f]),
      .arrive 1, .read 1]

theorem http_delivers_local :
    Delivers (http {} "a.test".toList 443) ⟨fun _ => .proxy, fun _ => none⟩
      (({ connector := httpConnect {} "a.test".toList (.finite (443 : Nat)) } : Link Unit).run
        ⟨fun _ => .proxy, fun _ => none⟩ localTurns) :=
  http_delivers _ {} ⟨by decide, by decide, by decide, by decide⟩ (by decide) localTurns

/-! ## A SOCKS5 server behind -/

def socks5Request (host : Text) (port : Nat) : Bytes :=
  [0x05, 0x01, 0x00] ++ EncodeAddr.encodeAddr host (.finite port)

/-- The words of `socks5Connect`, with the target as the server spells it. -/
def socks5 (node : Credentials) (target : EncodeAddr.Host) (host : Text) (port : Nat) :
    Dialect where
  connector := socks5Connect node host (.finite port)
  messages := [socks5Hello node, socks5Request host port]
  host := target.decoded
  port := .finite port
  reply := .socks5 []
  refusals := [[0x05, 0x00] ++ socks5Reply 0x02, [0x05, 0x00] ++ socks5Reply 0x05]

variable (Node) in
/-- Whole messages have come in. -/
inductive AskingSocks5 (hello : Bytes) : Asking Node where
  | first : AskingSocks5 hello [] .first []
  | request : AskingSocks5 hello hello .request [0x05, 0x00]

theorem read_request {target : EncodeAddr.Host} {host : Text} (hs : target.Spelled host)
    (hf : EncodeAddr.Fits host target) {port : Nat} (hp : port < 65536) :
    readSocks5Request (socks5Request host port) = some (target.decoded, port, []) := by
  have hread : EncodeAddr.RoundTrips target host port [] := by
    cases target with
    | ip4 octets =>
        have henc := EncodeAddr.encodeAddr_ip4 hs hp
        exact ⟨by rw [henc]; rfl, by rw [henc]; exact read_ip4 hs.1 hp []⟩
    | ip6 octets h16 => exact (EncodeAddr.roundTrips_ip6 h16 hs hp []).mpr hf
    | name text ne_nil colonless named =>
        have hs : host = text := hs
        subst hs
        exact (EncodeAddr.roundTrips_name hp []).mpr hf
  have hvalue := hread.value_eq
  rwa [List.append_nil] at hvalue

theorem welcomed_socks5 (node : Credentials) (target : EncodeAddr.Host) (host : Text)
    (port : Nat) :
    Source.Consumes (runOn (Source.ofList UInt8) (socks5 node target host port).connector [])
      (socks5 node target host port).welcome ((), (socks5 node target host port).messages) := by
  have hreply : Source.Consumes (Handshakes.socks5Connect node host (.finite port) :
      (Source.ofList UInt8).Reads Text (List Bytes)) ([0x05, 0x00] ++ socks5Reply 0x00) _ :=
    Handshakes.consumes_socks5Connect node host (.finite port)
      ⟨0x05, none, 0x00, .ip4 [0, 0, 0, 0] rfl, (0, 0)⟩
  change Source.Consumes (runOn _ (socks5Connect node host (.finite port)) [])
    ([0x05, 0x00] ++ socks5Reply 0x00) _
  rw [runOn_socks5Connect]
  exact hreply.bind_nil (Source.consumes_pure _)

theorem refused_socks5 (node : Credentials) (target : EncodeAddr.Host) (host : Text) (port : Nat)
    {code : UInt8} (hcode : code = 0x02 ∨ code = 0x05) (sent : List Bytes) (rest : Bytes) :
    onList (runOn _ (socks5 node target host port).connector [])
      ([0x05, 0x00] ++ socks5Reply code) ≠ some (.ok ((), sent), rest) := by
  change onList (runOn _ (socks5Connect node host (.finite port)) []) _ ≠ _
  rw [runOn_socks5Connect]
  rcases hcode with rfl | rfl
  · intro h
    cases h
  · intro h
    cases h

theorem hello_greets (node : Credentials) :
    (socks5Hello node).head? = some 0x05 ∧ 0x00 ∈ greetingMethods (socks5Hello node) := by
  rw [socks5Hello]
  cases node.given <;> decide

/-- The function asks for its target once it has read the greeting, and then waits. -/
theorem sent_socks5 {node : Credentials} {host : Text} {port : Nat} {sent : List Bytes}
    {heard : Bytes} {q : Steps Text Unit}
    (h : Walks (socks5Connect node host (.finite port)) sent heard q)
    (hf : heard <+: [0x05, 0x00]) :
    sent = [] ∨ sent = [socks5Hello node] ∨
      (heard = [0x05, 0x00] ∧ sent = [socks5Hello node, socks5Request host port]) := by
  rcases h.of_write with ⟨rfl, -⟩ | ⟨more, rfl, h₁⟩
  · exact .inl rfl
  rcases h₁.of_read with ⟨rfl, -⟩ | ⟨b, rest, hlen, rfl, h₂⟩
  · exact .inr (.inl rfl)
  obtain ⟨rfl, rfl⟩ : b = [0x05, 0x00] ∧ rest = [] := by
    have hle := hf.length_le
    rw [List.length_append, hlen] at hle
    have hrest : rest = [] := List.length_eq_zero_iff.mp (Nat.le_zero.mp (by simpa using hle))
    rw [hrest, List.append_nil] at hf
    exact ⟨hf.eq_of_length hlen, hrest⟩
  have h₃ := @Walks.of_write _ _ _ _ (socks5Request host port) _ q h₂
  rcases h₃ with ⟨rfl, -⟩ | ⟨more', rfl, h₄⟩
  · exact .inr (.inl rfl)
  rcases h₄.of_read with ⟨rfl, -⟩ | ⟨b, rest, hlen', hnil, -⟩
  · exact .inr (.inr ⟨rfl, rfl⟩)
  · have hzero := congrArg List.length hnil
    rw [List.length_append, hlen'] at hzero
    simp at hzero
    omega

/-- The answer to the request in one event. -/
theorem serves_request (node : Credentials) {target : EncodeAddr.Host} {host : Text}
    (hs : target.Spelled host) (hf : EncodeAddr.Fits host target) {port : Nat}
    (hp : port < 65536) {k : Client Node} (hstage : k.conn.stage = .request)
    (hq : Quiet k.conn [0x05, 0x00]) :
    Serves (socks5 node target host port) (AskingSocks5 Node (socks5Hello node))
      (k.step site current (.data (socks5Request host port)))
      (socks5 node target host port).request := by
  have hstep : (k.step site current (.data (socks5Request host port))).conn =
      (site.server current).handleSocks5Request k.conn (socks5Request host port) := by
    change (site.server current).data k.conn _ = _
    rw [data, hstage]
  rw [handleSocks5Request, read_request hs hf hp] at hstep
  simp only at hstep
  have hquiet := (hq.extract target.decoded (.finite port)).setBehind []
  have hleft : ∀ code, [0x05, 0x00] ++ socks5Reply code ∈ (socks5 node target host port).refusals →
      (k.step site current (.data (socks5Request host port))).conn =
        ((k.conn.extract target.decoded (.finite port)).setBehind []).end (socks5Reply code) →
      Serves (socks5 node target host port) (AskingSocks5 Node (socks5Hello node))
        (k.step site current (.data (socks5Request host port)))
        (socks5 node target host port).request := by
    intro code hcode hend
    refine .left ?_ hcode ?_ fun target' ht => ?_
    · rw [hend]
      rfl
    · rw [hend]
      exact hquiet.end _
    · rw [hend, end_extracted] at ht
      exact (Option.some.inj ht).symm
  split at hstep
  · exact hleft 0x02 List.mem_cons_self hstep
  · split at hstep
    · exact hleft 0x05 (List.mem_cons_of_mem _ List.mem_cons_self) hstep
    · next node' _ =>
        refine .dialling node' ?_ ?_ ?_ rfl
        · rw [hstep]
          rfl
        · rw [hstep]
          exact hquiet.setStage _
        · rw [hstep]
          rfl

theorem serves_hello (node : Credentials) (target : EncodeAddr.Host) (host : Text) (port : Nat)
    {k : Client Node} (hstage : k.conn.stage = .first) (hq : Quiet k.conn [])
    (hx : k.conn.extracted = none) :
    Serves (socks5 node target host port) (AskingSocks5 Node (socks5Hello node))
      (k.step site current (.data (socks5Hello node))) (socks5Hello node) := by
  obtain ⟨hhead, hoffers⟩ := hello_greets node
  have hstep : (k.step site current (.data (socks5Hello node))).conn =
      (k.conn.write [0x05, 0x00]).setStage .request := by
    change (site.server current).data k.conn _ = _
    rw [data, hstage]
    change (site.server current).handle k.conn _ = _
    rw [handle, if_pos hhead, handleSocks5, if_pos hoffers]
  refine .asking .request ?_ ?_ ?_
  · rw [hstep]
    rfl
  · rw [hstep]
    exact (hq.write [0x05, 0x00]).setStage _
  · rw [hstep]
    exact (write_extracted k.conn _).trans hx

theorem speaks_socks5 (node : Credentials) {target : EncodeAddr.Host} {host : Text}
    (hs : target.Spelled host) (hf : EncodeAddr.Fits host target) {port : Nat}
    (hp : port < 65536) : (socks5 node target host port).Speaks site True
      (AskingSocks5 Node (socks5Hello node)) where
  welcomed := welcomed_socks5 node target host port
  refused told ht sent rest := by
    rcases List.mem_cons.mp ht with rfl | ht
    · exact refused_socks5 node target host port (.inl rfl) sent rest
    · rw [List.mem_singleton.mp ht]
      exact refused_socks5 node target host port (.inr rfl) sent rest
  failed := List.mem_cons_of_mem _ List.mem_cons_self
  tunnels _ ht := by cases ht
  begins := .first
  waits ha := by
    cases ha with
    | first => exact ⟨List.nil_prefix, .inl rfl⟩
    | request => exact ⟨List.prefix_rfl, .inr (.inl rfl)⟩
  hears {k current given chunk heard stage told sent q} ha hstage hq hx hwalk hheard _ hne _
      hwhole := by
    have hall := hwhole trivial
    cases ha with
    | first =>
        rcases sent_socks5 hwalk (hheard.trans List.nil_prefix) with rfl | rfl | ⟨rfl, -⟩
        · exact absurd hall hne
        · rw [List.nil_append, List.flatten_singleton] at hall
          rw [hall]
          exact serves_hello node target host port hstage hq hx
        · exact absurd hheard.length_le (by decide)
    | request =>
        rcases sent_socks5 hwalk hheard with rfl | rfl | ⟨-, rfl⟩
        · exact absurd (List.append_eq_nil_iff.mp hall).2 hne
        · rw [List.flatten_singleton] at hall
          exact absurd (List.append_right_eq_self.mp hall) hne
        · have hchunk : chunk = socks5Request host port := by
            rw [List.flatten_cons, List.flatten_singleton] at hall
            exact List.append_cancel_left hall
          rw [hall, hchunk]
          exact serves_request node hs hf hp hstage hq

/-- In every run of a link to a SOCKS5 server in which each event brings all that is in flight both
directions deliver. -/
theorem socks5_delivers (site : Site) (node : Credentials) {target : EncodeAddr.Host} {host : Text}
    (hs : target.Spelled host) (hf : EncodeAddr.Fits host target) {port : Nat} (hp : port < 65536)
    {turns : List (Turn Node)} (hw : ∀ turn ∈ turns, turn.Whole) :
    Delivers (socks5 node target host port) site
      (({ connector := socks5Connect node host (.finite port) } : Link Node).run site turns) :=
  run_delivers (speaks_socks5 node hs hf hp) fun _ => hw

/-- The greeting and the request come in whole, and a byte goes each way behind them. -/
def wholeTurns : List (Turn Unit) :=
  [.advance, .segment (some ()) none, .arrive 2, .advance, .advance, .segment (some ()) none,
    .event none .connected connected_ne_data, .arrive 10, .advance, .advance, .write [0x21],
    .segment none none, .event none (.upstream [0x3f]) (upstream_ne_data [0x3f]), .arrive 1,
    .read 1]

theorem socks5_delivers_local :
    Delivers (socks5 {} (.ip4 [127, 0, 0, 1]) "127.0.0.1".toList 443)
      ⟨fun _ => .proxy, fun _ => none⟩
      (({ connector := socks5Connect {} "127.0.0.1".toList (.finite (443 : Nat)) } :
        Link Unit).run ⟨fun _ => .proxy, fun _ => none⟩ wholeTurns) := by
  have h0 : EncodeAddr.SpellsOctet 0 "0".toList := ⟨by decide, by decide, by decide, by decide⟩
  have h1 : EncodeAddr.SpellsOctet 1 "1".toList := ⟨by decide, by decide, by decide, by decide⟩
  have h127 : EncodeAddr.SpellsOctet 127 "127".toList :=
    ⟨by decide, by decide, by decide, by decide⟩
  have hspelled : EncodeAddr.SpellsIp4 [127, 0, 0, 1] "127.0.0.1".toList :=
    ⟨rfl, _, .cons h127 (.cons h0 (.cons h0 (.cons h1 .nil))), rfl⟩
  have hwhole : ∀ turn ∈ wholeTurns, turn.Whole := by
    intro turn ht
    simp only [wholeTurns, List.mem_cons, List.not_mem_nil, or_false] at ht
    rcases ht with rfl | rfl | rfl | rfl | rfl | rfl | rfl | rfl | rfl | rfl | rfl | rfl | rfl |
      rfl | rfl <;> trivial
  exact @socks5_delivers Unit _ {} (.ip4 [127, 0, 0, 1]) _ hspelled trivial 443 (by decide)
    wholeTurns hwhole

end DshClashProxy.Core.ProxyChain
