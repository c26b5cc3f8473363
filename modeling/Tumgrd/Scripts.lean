import Tumgrd.Ipdetect
import Tumgrd.Sendable

/-! The scripts that are sent to the server: one line each, whose words are the
fields of the row and the address. -/
namespace Tumgrd

open Lex Effect Service

section Lines

variable {n : Node} {address : Str}

/-- One line, of these words. -/
structure OneLine (script : Str) (fields : List Str) : Prop where
  words : Lex.words isSpace script = fields
  newline : ∃ line, script = line ++ "\n".toList ∧ '\n' ∉ line

/-- The words of a `server-add`: the fields in this order, a key and a comment
only where there is one. -/
def serverAddFields (uid : Str) (port : Int) (address xorKey comment : Str) : List Str :=
  ["server-add".toList, "uid".toList, uid, "port".toList, decimal port, "address".toList,
    address] ++
    (if xorKey = [] then [] else ["xor".toList, xorKey]) ++
    (if comment = [] then [] else "comment".toList :: Lex.words isSpace comment)

def Node.serverAddFields (n : Node) (address : Str) : List Str :=
  Tumgrd.serverAddFields n.uid.text n.clientPort address n.xorKey.text
    (sanitizeComment n.clientComment.text 256)

/-- The words that the columns of a row ask for. -/
def Row.serverAddFields (r : Row) (address : Str) : List Str :=
  Tumgrd.serverAddFields r.uid.text r.clientPort address (columnText r.xorKey).text
    (sanitizeComment (columnText r.clientComment).text 256)

theorem newline_xorSuffix (key : n.xorKey.text ≠ [] → Field n.xorKey.text) :
    '\n' ∉ xorSuffix n := by
  rw [xorSuffix_eq]
  split
  · simp
  · rename_i keyed
    simp [(key keyed).newline]

theorem newline_commentSuffix (n : Node) : '\n' ∉ commentSuffix n := by
  rw [commentSuffix_eq]
  split
  · simp
  · simp [newline_sanitizeComment]

theorem words_serverAddScript (uid : Field n.uid.text)
    (key : n.xorKey.text ≠ [] → Field n.xorKey.text) (located : Field address) :
    Lex.words isSpace (serverAddScript n address) = n.serverAddFields address := by
  rw [serverAddScript_eq_words, words_serverAddWords uid key, located.words]
  simp only [Node.serverAddFields, serverAddFields, keyWords, List.cons_append, List.nil_append]

theorem serverAddScript_oneLine (uid : Field n.uid.text)
    (key : n.xorKey.text ≠ [] → Field n.xorKey.text) (located : Field address) :
    OneLine (serverAddScript n address) (n.serverAddFields address) where
  words := words_serverAddScript uid key located
  newline := by
    refine ⟨_, rfl, ?_⟩
    have port := (field_decimal n.clientPort).newline
    simp [uid.newline, port, located.newline, newline_xorSuffix key, newline_commentSuffix n]

theorem serverDelScript_oneLine (uid : Field n.uid.text) :
    OneLine (serverDelScript n) ["server-del".toList, "uid".toList, n.uid.text] where
  words := by rw [serverDelScript_eq_words, words_serverDelWords uid, serverDelWords]
  newline := ⟨_, rfl, by simp [uid.newline]⟩

end Lines

section Addresses

theorem field_of_addressText {s : Str} (h : AddressText s) : Field s := by
  refine ⟨h.nonempty, fun c hc => isSpace_eq_false ?_⟩
  have := toNat_of_isAddressChar (h.chars c hc)
  omega

theorem addressText_of_extractIp {text ipVersion : Str} {ip : Buf 64}
    (h : extractIp text ipVersion = some ip) : AddressText ip.text := by
  have copied {s : Str} (accepted : (ipFamilyFromVersion ipVersion).accepts s = true) :
      AddressText (Buf.copy s : Buf 64).text := by
    have address := Family.addressText accepted
    rw [Buf.text_copy_of_fits (by have := address.length_le; omega)]
    exact address
  have short (s : Str) (accepted : (ipFamilyFromVersion ipVersion).accepts s = true) :
      s.length < 127 := by
    have := (Family.addressText accepted).length_le
    omega
  unfold extractIp at h
  dsimp only at h
  split at h
  · rename_i accepted
    cases h
    exact copied accepted
  · rw [firstAddress_eq short] at h
    obtain ⟨token, found, rfl⟩ := Option.map_eq_some_iff.mp h
    exact copied (List.find?_some found)

/-- An address that `detect_public_ip` returns is one. -/
theorem addressText_of_detectPublicIp {url ipVersion : Str} {probe : Probe}
    {fetch : HttpTarget → Option (List Recv)}
    (detected : (detectPublicIp url ipVersion probe fetch).ok = true) :
    AddressText (detectPublicIp url ipVersion probe fetch).ip.text := by
  unfold detectPublicIp at detected ⊢
  split at detected
  · contradiction
  · rename_i target located
    dsimp only at detected ⊢
    split at detected
    · rename_i probed
      rw [if_pos probed]
      exact addressText_of_inetPton6 (probe.written probed.2)
    · rename_i unprobed
      rw [if_neg unprobed]
      split at detected
      · rename_i ip extracted
        obtain ⟨body, -, found⟩ := Option.bind_eq_some_iff.mp extracted
        exact addressText_of_extractIp found
      · contradiction

/-- What `tumgrd_runner_server_add` names as the address: the placeholder, or
what the detection returned. -/
inductive ScriptAddress : Str → Prop
  | clientIp : ScriptAddress placeholder
  | detected {url ipVersion : Str} {probe : Probe} {fetch : HttpTarget → Option (List Recv)} :
      (detectPublicIp url ipVersion probe fetch).ok = true →
      ScriptAddress (detectPublicIp url ipVersion probe fetch).ip.text

theorem ScriptAddress.field {address : Str} (h : ScriptAddress address) : Field address := by
  cases h with
  | clientIp => exact field_placeholder
  | detected ok => exact field_of_addressText (addressText_of_detectPublicIp ok)

end Addresses

section Store

variable {admits : World → Task → Prop}

/-- Both scripts for a stored row are one line, whose words are its name, its
port, its key and the address, each of them whole and in its place. -/
theorem scripts_not_injected {s : State Req Resp World Task}
    (reach : (daemon (sem True) admits).Reachable World.Fresh s) :
    ∀ r ∈ s.world.table.rows, ∀ load address, ScriptAddress address →
      OneLine (serverAddScript (r.toNode load) address) (r.serverAddFields address) ∧
      OneLine (serverDelScript (r.toNode load)) ["server-del".toList, "uid".toList,
          r.uid.text] := by
  intro r hr load address located
  have sendable := ((sendable_rows.contract admits).invariant reach).2 r hr
  have uid : Field (r.toNode load).uid.text := field_of_isSafeId sendable.uid
  have key : (r.toNode load).xorKey.text ≠ [] → Field (r.toNode load).xorKey.text :=
    fun keyed => field_of_isSafeId (sendable.xorKey keyed)
  exact ⟨serverAddScript_oneLine uid key located.field, serverDelScript_oneLine uid⟩

end Store

section Samples

/-- A service that answers with the address alone. -/
@[irreducible] def sampleDetection : Detection :=
  detectPublicIp [] "ipv4".toList ⟨⟨false, .empty⟩, by simp⟩ fun _ =>
    some [.data 'H' "TTP/1.0 200 OK\r\n\r\n1.2.3.4\n".toList]

theorem sampleDetection_eq :
    sampleDetection.ok = true ∧ sampleDetection.ip.text = "1.2.3.4".toList := by
  decide +kernel

theorem scripts_not_injected_stored : ∃ r ∈ sampleStored.table.rows,
    OneLine (serverAddScript (r.toNode 0) "1.2.3.4".toList)
        (["server-add", "uid", "node", "port", "5000", "address", "1.2.3.4", "xor",
          String.ofList (List.replicate 128 'a')].map String.toList) ∧
      OneLine (serverDelScript (r.toNode 0)) ["server-del".toList, "uid".toList,
          "node".toList] := by
  obtain ⟨r, hr⟩ := Option.isSome_iff_exists.mp
    (show (sampleStored.table.find? sampleKey).isSome by decide +kernel)
  obtain ⟨ok, address⟩ := sampleDetection_eq
  have located : ScriptAddress "1.2.3.4".toList := by
    rw [← address]
    unfold sampleDetection at ok ⊢
    exact .detected ok
  have uid : ∀ r ∈ sampleStored.table.find? sampleKey, r.uid.text = "node".toList := by
    decide +kernel
  have fields : ∀ r ∈ sampleStored.table.find? sampleKey, r.serverAddFields "1.2.3.4".toList =
      ["server-add", "uid", "node", "port", "5000", "address", "1.2.3.4", "xor",
        String.ofList (List.replicate 128 'a')].map String.toList := by
    decide +kernel
  have stored := (Keyed.find?_eq_some.mp hr).1
  have both := scripts_not_injected sampleStored_reachable r stored 0 _ located
  rw [fields r hr, uid r hr] at both
  exact ⟨r, stored, both⟩

end Samples

end Tumgrd
