import NoteMarkup.Html.Builder

/-!
This module contains formulas and drawings inside HTML: how their elements and attributes are spelled, which
of them hold HTML again, and which tags end them.
-/

namespace NoteMarkup.Html

def svgTags : List String :=
  ["altGlyph", "altGlyphDef", "altGlyphItem", "animateColor", "animateMotion", "animateTransform", "clipPath",
    "feBlend", "feColorMatrix", "feComponentTransfer", "feComposite", "feConvolveMatrix",
    "feDiffuseLighting", "feDisplacementMap", "feDistantLight", "feDropShadow", "feFlood", "feFuncA",
    "feFuncB", "feFuncG", "feFuncR", "feGaussianBlur", "feImage", "feMerge", "feMergeNode", "feMorphology",
    "feOffset", "fePointLight", "feSpecularLighting", "feSpotLight", "feTile", "feTurbulence",
    "foreignObject", "glyphRef", "linearGradient", "radialGradient", "textPath"]

def svgAttributes : List String :=
  ["attributeName", "attributeType", "baseFrequency", "baseProfile", "calcMode", "clipPathUnits",
    "diffuseConstant", "edgeMode", "filterUnits", "glyphRef", "gradientTransform", "gradientUnits",
    "kernelMatrix", "kernelUnitLength", "keyPoints", "keySplines", "keyTimes", "lengthAdjust",
    "limitingConeAngle", "markerHeight", "markerUnits", "markerWidth", "maskContentUnits", "maskUnits",
    "numOctaves", "pathLength", "patternContentUnits", "patternTransform", "patternUnits", "pointsAtX",
    "pointsAtY", "pointsAtZ", "preserveAlpha", "preserveAspectRatio", "primitiveUnits", "refX", "refY",
    "repeatCount", "repeatDur", "requiredExtensions", "requiredFeatures", "specularConstant",
    "specularExponent", "spreadMethod", "startOffset", "stdDeviation", "stitchTiles", "surfaceScale",
    "systemLanguage", "tableValues", "targetX", "targetY", "textLength", "viewBox", "viewTarget",
    "xChannelSelector", "yChannelSelector", "zoomAndPan"]

def mathAttributes : List String :=
  ["definitionURL"]

def sharedAttributes : List (String × String) :=
  [("xlink:actuate", "actuate"), ("xlink:arcrole", "arcrole"), ("xlink:href", "href"),
    ("xlink:role", "role"), ("xlink:show", "show"), ("xlink:title", "title"), ("xlink:type", "type"),
    ("xml:lang", "lang"), ("xml:space", "space"), ("xmlns:xlink", "xlink")]

def spelled (spellings : List String) (name : String) : String :=
  (spellings.find? (Text.lowercase · == name)).getD name

def spelledTag (v : Vocabulary) (name : String) : String :=
  match v with
  | .svg => spelled svgTags name
  | _ => name

def spelledAttribute (v : Vocabulary) (a : Attribute) : Attribute :=
  let name :=
    match v with
    | .svg => spelled svgAttributes a.name
    | .math => spelled mathAttributes a.name
    | .html => a.name
  { a with name := (sharedAttributes.lookup name).getD name }

def foreignEnders : List String :=
  headings ++
    ["b", "big", "blockquote", "body", "br", "center", "code", "dd", "div", "dl", "dt", "em", "embed",
      "head", "hr", "i", "img", "li", "listing", "menu", "meta", "nobr", "ol", "p", "pre", "ruby", "s",
      "small", "span", "strong", "strike", "sub", "sup", "table", "tt", "u", "ul", "var"]

def Tag.endsForeign (tag : Tag) : Bool :=
  foreignEnders.contains tag.name ||
    (tag.name == "font" && tag.attributes.any fun a => ["color", "face", "size"].contains a.name)

/-- Kinds of text that an annotation of a formula may be in, and is read as HTML then. -/
def htmlEncodings : List String :=
  ["text/html", "application/xhtml+xml"]

namespace Page

def isHtmlNote (p : Page) (id : NodeId) : Bool :=
  match p.content? id with
  | some (.element ⟨.math, "annotation-xml"⟩ attributes) =>
    attributes.any fun a => a.name == "encoding" && htmlEncodings.contains (Text.lowercase a.value)
  | _ => false

end Page

namespace Builder

def isInForeign (b : Builder) : Bool :=
  b.opened.head?.any (·.name.isForeign)

/-- Whether a start tag or text inside an element is read as HTML, and all start tags but those named. -/
def takesHtml (b : Builder) (e : OpenElement) (t : Token) : Bool :=
  let isNote := e.name = ⟨.math, "annotation-xml"⟩
  let holdsText := e.name.isMathText || e.name.isSvgText || (isNote && b.page.isHtmlNote e.id)
  match t with
  | .finish => true
  | .text _ _ => holdsText
  | .null => holdsText
  | .startTag tag =>
    if e.name.isMathText then !(["mglyph", "malignmark"].contains tag.name)
    else holdsText || (isNote && tag.name == "svg")
  | _ => false

def readsAsForeign (b : Builder) (t : Token) : Bool :=
  match b.opened with
  | [] => false
  | e :: _ => e.name.isForeign && !b.takesHtml e t

def insertForeign (b : Builder) (v : Vocabulary) (tagName : String) (tag : Tag) : Builder :=
  let attributes := tag.attributes.map (spelledAttribute v)
  if tag.isSelfClosing then b.insertEmpty ⟨v, tagName⟩ attributes else b.insertElement ⟨v, tagName⟩ attributes

def leaveForeign (b : Builder) : Builder :=
  b.popWhile fun e => !(!e.name.isForeign || e.name.isMathText || e.name.isSvgText)

inductive ForeignEnd where
  | nothing
  | through (opened : List OpenElement)
  | html

/-- Looks for the element that an end tag closes, from the innermost one out. The outermost one is never
closed. -/
def foreignEnd (name : String) (isFirst : Bool) : List OpenElement → ForeignEnd
  | [] => .nothing
  | [_] => .nothing
  | e :: around =>
    if !isFirst && !e.name.isForeign then .html
    else if Text.lowercase e.name.tag == name then .through around
    else foreignEnd name false around

end Builder

end NoteMarkup.Html
