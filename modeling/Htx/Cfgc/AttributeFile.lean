import Mathlib

/-!
# Attribute files

The library under `lib/cfgc` reads master device tables and the profile: text files of
stanzas, each a name line `name:` with keyword lines below it.
-/

namespace Htx.Cfgc

inductive Rc where
  | succ
  | eof
  | szbf
  | sznf
deriving DecidableEq

def maxVal : Nat := 128

def maxKwd : Nat := 75

def defaultName : List Char := ['d', 'e', 'f', 'a', 'u', 'l', 't', ':']

/-! ## Reading one stanza -/

/--
The search for a stanza name.  The first argument says that a comment is being skipped.
The result holds the name buffer and the input from the delimiter on, which is put back;
`none` is the end of the file.
-/
def scanName : Bool -> List Char -> Bool -> List Char -> Option (List Char × List Char)
  | _, _, _, [] => none
  | true, namebuf, found, c :: rest =>
    if c = '\n' then scanName false [] false rest
    else scanName true namebuf found rest
  | false, namebuf, found, c :: rest =>
    if c = ' ' ∨ c = '\n' then
      if found then some (namebuf, c :: rest)
      else scanName false [] false rest
    else if c = '*' ∧ namebuf = [] then scanName true [] false rest
    else if namebuf.length < maxVal - 2 then
      scanName false (namebuf ++ [c]) (found || c == ':') rest
    -- the name has overflowed its buffer: the colon is not noticed any more
    else scanName false namebuf false rest

def readStanza (nbyte : Nat) : List Char -> Bool -> List Char -> List Char × List Char
  | buf, _, [] =>
    if buf.length < nbyte then (buf ++ ['\n'], []) else (buf, [])
  | buf, oneNl, c :: rest =>
    if buf.length < nbyte then
      if c = '\n' then
        if oneNl then (buf ++ [c], rest)
        else readStanza nbyte (buf ++ [c]) true rest
      else readStanza nbyte (buf ++ [c]) (oneNl && decide (c ≤ ' ')) rest
    else (buf, c :: rest)

def cfgcread (nbyte : Nat) (buf input : List Char) : Rc × List Char × List Char :=
  match scanName false [] false input with
  | none => (.eof, buf, [])
  | some (name, rest) =>
    if name.length < nbyte then
      let stanza := readStanza nbyte name false rest
      if stanza.1.length = nbyte then (.szbf, stanza.1.dropLast, stanza.2)
      else (.succ, stanza.1, stanza.2)
    else (.szbf, buf, rest)

/-! ## Looking a keyword up -/

inductive Scan where
  | value (text : List Char)
  | mnfd
  | fault
deriving DecidableEq

def Scan.ofOption : Option (List Char) -> Scan
  | some text => value text
  | none => mnfd

def afterNewline : List Char -> Option (List Char)
  | [] => none
  | c :: rest => if c = '\n' then some rest else afterNewline rest

def valueText (afterKeyword : List Char) : List Char :=
  ((afterKeyword.dropWhile (fun c => c = ' ' ∨ c = '=')).takeWhile
    (fun c => ' ' < c)).take (maxVal - 1)

def scanLines (keyword : List Char) : Nat -> List Char -> Scan
  | 0, _ => .fault
  | fuel + 1, text =>
    let nextLine (at' : List Char) : Scan :=
      match afterNewline at' with
      | none => .fault
      | some rest => scanLines keyword fuel rest
    let line := text.dropWhile (fun c => c ≤ ' ' ∧ c ≠ '\n')
    match line with
    | [] => .mnfd
    | c :: _ =>
      if c = '*' ∨ c = '\n' then nextLine line
      else if keyword.isPrefixOf line then
        let behind := line.drop keyword.length
        match behind with
        | [] => .mnfd
        | d :: _ =>
          if d = '=' ∨ d = ' ' then .value (valueText behind)
          else nextLine behind
      else nextLine line

def cfgcskwd (keyword buf : List Char) : Scan :=
  match afterNewline buf with
  | none => .fault
  | some text => scanLines keyword (buf.length + 1) text

/-! ## The default stanza -/

structure StanzaFile where
  content : List Char
  rest : List Char
  defbuf : List Char
  defmap : List Int
deriving DecidableEq

def cfgcopsf (content : List Char) : StanzaFile :=
  { content := content, rest := content, defbuf := [], defmap := [] }

def StanzaFile.ftell (sf : StanzaFile) : Nat :=
  sf.content.length - sf.rest.length

def cfgcrwnd (sf : StanzaFile) : StanzaFile :=
  { sf with rest := sf.content, defbuf := [] }

def lineStarts : Nat -> List Char -> List Nat
  | _, [] => []
  | i, c :: rest =>
    if c = '\n' ∧ rest.head? ≠ some '*' then (i + 1) :: lineStarts (i + 1) rest
    else lineStarts (i + 1) rest

def toShort (i : Nat) : Int :=
  Int.bmod i 65536

def cfgcsvdflt (sf : StanzaFile) (buf : List Char) : StanzaFile :=
  { sf with defbuf := buf, defmap := (lineStarts 0 buf).map toShort }

def cfgckwd (line : List Char) : List Char :=
  (line.dropWhile (fun c => c ≤ ' ')).takeWhile (fun c => ' ' < c ∧ c ≠ '=')

/--
The loop of `cfgcmrgdflt` over the map, with the text before index `lng` in `buf`.  The end
of the map reads as 0; an index outside the default stanza or a negative line length is a
wild pointer, `none`.
-/
def mergeLines (orgbuf defbuf : List Char) (nbyte : Nat) :
    List Int -> List Char -> Option (Rc × List Char)
  | [], buf => some (.succ, buf ++ ['\n'])
  | j :: defmap, buf =>
    if j = 0 then some (.succ, buf ++ ['\n'])
    else if j < 0 ∨ defbuf.length < j then none
    else
      let line := defbuf.drop j.toNat
      let name := cfgckwd line
      if name = [] then some (.succ, buf ++ ['\n'])
      else
        match cfgcskwd name orgbuf with
        | .fault => none
        | .value _ => mergeLines orgbuf defbuf nbyte defmap buf
        | .mnfd =>
          let linlen := defmap.headD 0 - j
          if (buf.length : Int) + linlen < (nbyte : Int) - 1 then
            if linlen < 0 then none
            else mergeLines orgbuf defbuf nbyte defmap (buf ++ line.take linlen.toNat)
          else some (.szbf, buf ++ ['\n'])

def cfgcmrgdflt (buf : List Char) (sf : StanzaFile) (nbyte : Nat) : Option (Rc × List Char) :=
  mergeLines buf sf.defbuf nbyte sf.defmap buf.dropLast

/-! ## Reading the wanted stanza -/

def requested (stanza : Option (List Char)) (buf : List Char) : Bool :=
  match stanza with
  | none => false
  | some name => name.isPrefixOf buf && buf[name.length]? == some ':'

def rdszLoop (nbyte startloc : Nat) (stanza : Option (List Char)) :
    Nat -> Bool -> List Char -> StanzaFile -> Option (Rc × List Char × StanzaFile)
  | 0, _, _, _ => none
  | fuel + 1, rewound, buf, sf =>
    match cfgcread nbyte buf sf.rest with
    | (.eof, buf, rest) =>
      let sf := { sf with rest := rest }
      if stanza = none then some (.eof, buf, sf)
      else if rewound then some (.sznf, buf, sf)
      else rdszLoop nbyte startloc stanza fuel true buf (cfgcrwnd sf)
    | (rc, buf, rest) =>
      let sf := { sf with rest := rest }
      if defaultName.isPrefixOf buf then
        let sf := cfgcsvdflt sf buf
        if requested stanza buf then some (rc, buf, sf)
        else rdszLoop nbyte startloc stanza fuel rewound buf sf
      else if stanza = none ∨ requested stanza buf = true then
        if rc = .succ then
          if sf.defbuf ≠ [] then
            (cfgcmrgdflt buf sf nbyte).map (fun merged => (merged.1, merged.2, sf))
          else some (rc, buf, sf)
        -- a stanza that is too big is not returned, the search goes on behind it
        else rdszLoop nbyte startloc stanza fuel rewound buf sf
      else if rewound = true ∧ startloc ≤ sf.ftell then some (.sznf, buf, sf)
      else rdszLoop nbyte startloc stanza fuel rewound buf sf

def cfgcrdsz (sf : StanzaFile) (nbyte : Nat) (stanza : Option (List Char)) :
    Option (Rc × List Char × StanzaFile) :=
  rdszLoop nbyte sf.ftell stanza (2 * sf.content.length + 3) false [] sf

/-! ## The files the library is for -/

def Inline (c : Char) : Prop :=
  c ≠ '\n' ∧ c ≠ '\x00'

instance (c : Char) : Decidable (Inline c) :=
  inferInstanceAs (Decidable (_ ∧ _))

structure IsKeyword (text : List Char) : Prop where
  nonempty : text ≠ []
  plain : forall c, c ∈ text -> ' ' < c ∧ c ≠ '='
  noComment : text.head? ≠ some '*'

structure Attribute where
  keyword : List Char
  before : Nat
  after : Nat
  value : List Char
  keyword_ok : IsKeyword keyword
  keyword_short : keyword.length < maxKwd
  value_ok : forall c, c ∈ value -> Inline c
  value_head : value.head? ≠ some ' '
  value_short : value.length < maxVal

inductive Line where
  | keyword (entry : Attribute)
  | comment (text : List Char) (ok : forall c, c ∈ text -> Inline c)

def Attribute.text (entry : Attribute) : List Char :=
  entry.keyword ++ List.replicate entry.before ' ' ++
    '=' :: (List.replicate entry.after ' ' ++ entry.value)

def Line.text : Line -> List Char
  | keyword entry => entry.text
  | comment text _ => '*' :: text

def Line.isComment : Line -> Bool
  | keyword _ => false
  | comment _ _ => true

def Line.value? (name : List Char) : Line -> Option (List Char)
  | keyword entry => if entry.keyword = name then some entry.value else none
  | comment _ _ => none

structure Stanza where
  name : List Char
  lines : List Line
  name_plain : forall c, c ∈ name -> ' ' < c ∧ c ≠ ':'
  name_head : name.head? ≠ some '*'

def linesText (lines : List Line) : List Char :=
  lines.flatMap (fun line => line.text ++ ['\n'])

def Stanza.body (stanza : Stanza) : List Char :=
  stanza.name ++ ':' :: '\n' :: linesText stanza.lines

def Stanza.text (stanza : Stanza) : List Char :=
  stanza.body ++ ['\n']

def Stanza.isDefault (stanza : Stanza) : Bool :=
  stanza.name ++ [':'] == defaultName

inductive Ending where
  | emptyLine
  | newline
  | bare
deriving DecidableEq

def Stanza.lastText (stanza : Stanza) : Ending -> List Char
  | .emptyLine => stanza.text
  | .newline => stanza.body
  | .bare => if stanza.lines = [] then stanza.body else stanza.body.dropLast

def fileText (ending : Ending) : List Stanza -> List Char
  | [] => []
  | [stanza] => stanza.lastText ending
  | stanza :: next :: more => stanza.text ++ fileText ending (next :: more)

def stanzaReads : Option Stanza -> List Stanza -> List (Stanza × Option Stanza)
  | _, [] => []
  | default, stanza :: more =>
    if stanza.isDefault then stanzaReads (some stanza) more
    else (stanza, default) :: stanzaReads default more

def lookup (keyword : List Char) (lines : List Line) : Option (List Char) :=
  lines.findSome? (Line.value? keyword)

def defaultLines (default : Option Stanza) : List Line :=
  (default.map Stanza.lines).getD []

def expected (keyword : List Char) (read : Stanza × Option Stanza) : Option (List Char) :=
  (lookup keyword read.1.lines).or (lookup keyword (defaultLines read.2))

def Fits (nbyte : Nat) (stanzas : List Stanza) : Prop :=
  (forall stanza, stanza ∈ stanzas -> stanza.text.length < nbyte) ∧
    forall read, read ∈ stanzaReads none stanzas ->
      read.1.text.length + ((read.2.map Stanza.text).getD []).length < nbyte

def ReadsAs (nbyte : Nat) : StanzaFile -> List (Stanza × Option Stanza) -> Prop
  | sf, [] => exists buf sf', cfgcrdsz sf nbyte none = some (.eof, buf, sf')
  | sf, read :: more =>
    exists buf sf', cfgcrdsz sf nbyte none = some (.succ, buf, sf') ∧
      (forall keyword, IsKeyword keyword ->
        cfgcskwd keyword buf = Scan.ofOption (expected keyword read)) ∧
      ReadsAs nbyte sf' more

end Htx.Cfgc
