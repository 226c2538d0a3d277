/-!
This module contains the names of elements in an HTML text, and the sets of names that the rules for building
its tree speak of.
-/

namespace NoteMarkup.Html

inductive Vocabulary where
  | html
  | math
  | svg
  deriving DecidableEq, Repr

structure ElementName where
  vocabulary : Vocabulary
  tag : String
  deriving DecidableEq, Repr

namespace ElementName

def html (tag : String) : ElementName :=
  ⟨.html, tag⟩

def isTag (n : ElementName) (tag : String) : Bool :=
  n.vocabulary = .html && n.tag == tag

def isAmong (n : ElementName) (tags : List String) : Bool :=
  n.vocabulary = .html && tags.contains n.tag

def isForeign (n : ElementName) : Bool :=
  n.vocabulary != .html

def isMathText (n : ElementName) : Bool :=
  n.vocabulary = .math && ["mi", "mo", "mn", "ms", "mtext"].contains n.tag

def isSvgText (n : ElementName) : Bool :=
  n.vocabulary = .svg && ["foreignObject", "desc", "title"].contains n.tag

/-- Elements that hide the elements around them from tags inside. -/
def isBoundary (n : ElementName) : Bool :=
  n.isAmong ["applet", "caption", "html", "table", "td", "th", "marquee", "object", "template"] ||
    n.isMathText || n.isSvgText

def isStructural (n : ElementName) : Bool :=
  n.isAmong
    ["address", "applet", "area", "article", "aside", "base", "basefont", "bgsound", "blockquote", "body",
      "br", "button", "caption", "center", "col", "colgroup", "dd", "details", "dir", "div", "dl", "dt",
      "embed", "fieldset", "figcaption", "figure", "footer", "form", "frame", "frameset", "h1", "h2", "h3",
      "h4", "h5", "h6", "head", "header", "hgroup", "hr", "html", "iframe", "img", "input", "isindex", "li",
      "link", "listing", "main", "marquee", "menu", "meta", "nav", "noembed", "noframes", "noscript",
      "object", "ol", "p", "param", "plaintext", "pre", "script", "section", "select", "source", "style",
      "summary", "table", "tbody", "td", "template", "textarea", "tfoot", "th", "thead", "title", "tr",
      "track", "ul", "wbr", "xmp"]

end ElementName

def headings : List String :=
  ["h1", "h2", "h3", "h4", "h5", "h6"]

def impliedEnds : List String :=
  ["dd", "dt", "li", "option", "optgroup", "p", "rb", "rp", "rt", "rtc"]

def rowGroups : List String :=
  ["tbody", "tfoot", "thead"]

def cells : List String :=
  ["td", "th"]

def tableFrames : List String :=
  ["table", "tbody", "tfoot", "thead", "tr"]

def tableBoundaries : List String :=
  ["html", "table", "template"]

def emptyHeadElements : List String :=
  ["base", "basefont", "bgsound", "link", "meta"]

end NoteMarkup.Html
