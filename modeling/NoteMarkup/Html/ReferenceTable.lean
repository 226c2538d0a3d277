import NoteMarkup.Text.Blank
import NoteMarkup.Text.Letter

/-!
This module contains the names of the character references of HTML. They are written as a table of text, from
the longest name to the shortest, so that the first name that fits is the longest one that does.
-/

namespace NoteMarkup.Html

structure NamedReference where
  name : List Char
  chars : List Char
  deriving DecidableEq, Repr

/-- The names, each with the hexadecimal numbers of its characters. -/
def namedReferenceLines : List String :=
  ["CounterClockwiseContourIntegral;=2233 ClockwiseContourIntegral;=2232 DoubleLongLeftRightArrow;=27fa",
    "NotNestedGreaterGreater;=2aa2+338 DiacriticalDoubleAcute;=2dd NotSquareSupersetEqual;=22e3",
    "CloseCurlyDoubleQuote;=201d DoubleContourIntegral;=222f FilledVerySmallSquare;=25aa",
    "NegativeVeryThinSpace;=200b NotPrecedesSlantEqual;=22e0 NotRightTriangleEqual;=22ed",
    "NotSucceedsSlantEqual;=22e1 CapitalDifferentialD;=2145 DoubleLeftRightArrow;=21d4",
    "DoubleLongRightArrow;=27f9 EmptyVerySmallSquare;=25ab NestedGreaterGreater;=226b",
    "NotDoubleVerticalBar;=2226 NotGreaterSlantEqual;=2a7e+338 NotLeftTriangleEqual;=22ec",
    "NotSquareSubsetEqual;=22e2 OpenCurlyDoubleQuote;=201c ReverseUpEquilibrium;=296f",
    "DoubleLongLeftArrow;=27f8 DownLeftRightVector;=2950 LeftArrowRightArrow;=21c6",
    "NegativeMediumSpace;=200b NotGreaterFullEqual;=2267+338 NotRightTriangleBar;=29d0+338",
    "RightArrowLeftArrow;=21c4 SquareSupersetEqual;=2292 leftrightsquigarrow;=21ad",
    "DownRightTeeVector;=295f DownRightVectorBar;=2957 LongLeftRightArrow;=27f7 Longleftrightarrow;=27fa",
    "NegativeThickSpace;=200b NotLeftTriangleBar;=29cf+338 PrecedesSlantEqual;=227c",
    "ReverseEquilibrium;=21cb RightDoubleBracket;=27e7 RightDownTeeVector;=295d RightDownVectorBar;=2955",
    "RightTriangleEqual;=22b5 SquareIntersection;=2293 SucceedsSlantEqual;=227d blacktriangleright;=25b8",
    "longleftrightarrow;=27f7 DoubleUpDownArrow;=21d5 DoubleVerticalBar;=2225 DownLeftTeeVector;=295e",
    "DownLeftVectorBar;=2956 FilledSmallSquare;=25fc GreaterSlantEqual;=2a7e LeftDoubleBracket;=27e6",
    "LeftDownTeeVector;=2961 LeftDownVectorBar;=2959 LeftTriangleEqual;=22b4 NegativeThinSpace;=200b",
    "NotGreaterGreater;=226b+338 NotLessSlantEqual;=2a7d+338 NotNestedLessLess;=2aa1+338",
    "NotReverseElement;=220c NotSquareSuperset;=2290+338 NotTildeFullEqual;=2247 RightAngleBracket;=27e9",
    "RightUpDownVector;=294f SquareSubsetEqual;=2291 VerticalSeparator;=2758 blacktriangledown;=25be",
    "blacktriangleleft;=25c2 leftrightharpoons;=21cb rightleftharpoons;=21cc twoheadrightarrow;=21a0",
    "DiacriticalAcute;=b4 DiacriticalGrave;=60 DiacriticalTilde;=2dc DoubleRightArrow;=21d2",
    "DownArrowUpArrow;=21f5 EmptySmallSquare;=25fb GreaterEqualLess;=22db GreaterFullEqual;=2267",
    "LeftAngleBracket;=27e8 LeftUpDownVector;=2951 LessEqualGreater;=22da NonBreakingSpace;=a0",
    "NotPrecedesEqual;=2aaf+338 NotRightTriangle;=22eb NotSucceedsEqual;=2ab0+338",
    "NotSucceedsTilde;=227f+338 NotSupersetEqual;=2289 RightTriangleBar;=29d0 RightUpTeeVector;=295c",
    "RightUpVectorBar;=2954 UnderParenthesis;=23dd UpArrowDownArrow;=21c5 circlearrowright;=21bb",
    "downharpoonright;=21c2 ntrianglerighteq;=22ed rightharpoondown;=21c1 rightrightarrows;=21c9",
    "twoheadleftarrow;=219e vartriangleright;=22b3 CloseCurlyQuote;=2019 ContourIntegral;=222e",
    "DoubleDownArrow;=21d3 DoubleLeftArrow;=21d0 DownRightVector;=21c1 LeftRightVector;=294e",
    "LeftTriangleBar;=29cf LeftUpTeeVector;=2960 LeftUpVectorBar;=2958 LowerRightArrow;=2198",
    "NotGreaterEqual;=2271 NotGreaterTilde;=2275 NotHumpDownHump;=224e+338 NotLeftTriangle;=22ea",
    "NotSquareSubset;=228f+338 OverParenthesis;=23dc RightDownVector;=21c2 ShortRightArrow;=2192",
    "UpperRightArrow;=2197 bigtriangledown;=25bd circlearrowleft;=21ba curvearrowright;=21b7",
    "downharpoonleft;=21c3 leftharpoondown;=21bd leftrightarrows;=21c6 nLeftrightarrow;=21ce",
    "nleftrightarrow;=21ae ntrianglelefteq;=22ec rightleftarrows;=21c4 rightsquigarrow;=219d",
    "rightthreetimes;=22cc straightepsilon;=3f5 trianglerighteq;=22b5 vartriangleleft;=22b2",
    "DiacriticalDot;=2d9 DoubleRightTee;=22a8 DownLeftVector;=21bd GreaterGreater;=2aa2",
    "HorizontalLine;=2500 InvisibleComma;=2063 InvisibleTimes;=2062 LeftDownVector;=21c3",
    "LeftRightArrow;=2194 Leftrightarrow;=21d4 LessSlantEqual;=2a7d LongRightArrow;=27f6",
    "Longrightarrow;=27f9 LowerLeftArrow;=2199 NestedLessLess;=226a NotGreaterLess;=2279",
    "NotLessGreater;=2278 NotSubsetEqual;=2288 NotVerticalBar;=2224 OpenCurlyQuote;=2018",
    "ReverseElement;=220b RightTeeVector;=295b RightVectorBar;=2953 ShortDownArrow;=2193",
    "ShortLeftArrow;=2190 SquareSuperset;=2290 TildeFullEqual;=2245 UpperLeftArrow;=2196",
    "ZeroWidthSpace;=200b curvearrowleft;=21b6 doublebarwedge;=2306 downdownarrows;=21ca",
    "hookrightarrow;=21aa leftleftarrows;=21c7 leftrightarrow;=2194 leftthreetimes;=22cb",
    "longrightarrow;=27f6 looparrowright;=21ac nshortparallel;=2226 ntriangleright;=22eb",
    "rightarrowtail;=21a3 rightharpoonup;=21c0 trianglelefteq;=22b4 upharpoonright;=21be",
    "ApplyFunction;=2061 DifferentialD;=2146 DoubleLeftTee;=2ae4 DoubleUpArrow;=21d1 LeftTeeVector;=295a",
    "LeftVectorBar;=2952 LessFullEqual;=2266 LongLeftArrow;=27f5 Longleftarrow;=27f8",
    "NotEqualTilde;=2242+338 NotTildeEqual;=2244 NotTildeTilde;=2249 Poincareplane;=210c",
    "PrecedesEqual;=2aaf PrecedesTilde;=227e RightArrowBar;=21e5 RightTeeArrow;=21a6 RightTriangle;=22b3",
    "RightUpVector;=21be SucceedsEqual;=2ab0 SucceedsTilde;=227f SupersetEqual;=2287 UpEquilibrium;=296e",
    "VerticalTilde;=2240 VeryThinSpace;=200a bigtriangleup;=25b3 blacktriangle;=25b4 divideontimes;=22c7",
    "fallingdotseq;=2252 hookleftarrow;=21a9 leftarrowtail;=21a2 leftharpoonup;=21bc longleftarrow;=27f5",
    "looparrowleft;=21ab measuredangle;=2221 ntriangleleft;=22ea shortparallel;=2225 smallsetminus;=2216",
    "triangleright;=25b9 upharpoonleft;=21bf varsubsetneqq;=2acb+fe00 varsupsetneqq;=2acc+fe00",
    "DownArrowBar;=2913 DownTeeArrow;=21a7 ExponentialE;=2147 GreaterEqual;=2265 GreaterTilde;=2273",
    "HilbertSpace;=210b HumpDownHump;=224e Intersection;=22c2 LeftArrowBar;=21e4 LeftTeeArrow;=21a4",
    "LeftTriangle;=22b2 LeftUpVector;=21bf NotCongruent;=2262 NotHumpEqual;=224f+338 NotLessEqual;=2270",
    "NotLessTilde;=2274 Proportional;=221d RightCeiling;=2309 RoundImplies;=2970 ShortUpArrow;=2191",
    "SquareSubset;=228f UnderBracket;=23b5 VerticalLine;=7c blacklozenge;=29eb exponentiale;=2147",
    "risingdotseq;=2253 triangledown;=25bf triangleleft;=25c3 varsubsetneq;=228a+fe00",
    "varsupsetneq;=228b+fe00 CircleMinus;=2296 CircleTimes;=2297 Equilibrium;=21cc GreaterLess;=2277",
    "LeftCeiling;=2308 LessGreater;=2276 MediumSpace;=205f NotLessLess;=226a+338 NotPrecedes;=2280",
    "NotSucceeds;=2281 NotSuperset;=2283+20d2 OverBracket;=23b4 RightVector;=21c0 Rrightarrow;=21db",
    "RuleDelayed;=29f4 SmallCircle;=2218 SquareUnion;=2294 SubsetEqual;=2286 UpDownArrow;=2195",
    "Updownarrow;=21d5 VerticalBar;=2223 backepsilon;=3f6 blacksquare;=25aa circledcirc;=229a",
    "circleddash;=229d curlyeqprec;=22de curlyeqsucc;=22df diamondsuit;=2666 eqslantless;=2a95",
    "expectation;=2130 nRightarrow;=21cf nrightarrow;=219b preccurlyeq;=227c precnapprox;=2ab9",
    "quaternions;=210d straightphi;=3d5 succcurlyeq;=227d succnapprox;=2aba thickapprox;=2248",
    "updownarrow;=2195 Bernoullis;=212c CirclePlus;=2295 EqualTilde;=2242 Fouriertrf;=2131",
    "ImaginaryI;=2148 Laplacetrf;=2112 LeftVector;=21bc Lleftarrow;=21da NotElement;=2209",
    "NotGreater;=226f Proportion;=2237 RightArrow;=2192 RightFloor;=230b Rightarrow;=21d2",
    "ThickSpace;=205f+200a TildeEqual;=2243 TildeTilde;=2248 UnderBrace;=23df UpArrowBar;=2912",
    "UpTeeArrow;=21a5 circledast;=229b complement;=2201 curlywedge;=22cf eqslantgtr;=2a96",
    "gtreqqless;=2a8c lessapprox;=2a85 lesseqqgtr;=2a8b lmoustache;=23b0 longmapsto;=27fc",
    "mapstodown;=21a7 mapstoleft;=21a4 nLeftarrow;=21cd nleftarrow;=219a nsubseteqq;=2ac5+338",
    "nsupseteqq;=2ac6+338 precapprox;=2ab7 rightarrow;=2192 rmoustache;=23b1 sqsubseteq;=2291",
    "sqsupseteq;=2292 subsetneqq;=2acb succapprox;=2ab8 supsetneqq;=2acc upuparrows;=21c8 varepsilon;=3f5",
    "varnothing;=2205 Backslash;=2216 CenterDot;=b7 CircleDot;=2299 Congruent;=2261 Coproduct;=2210",
    "DoubleDot;=a8 DownArrow;=2193 DownBreve;=311 Downarrow;=21d3 HumpEqual;=224f LeftArrow;=2190",
    "LeftFloor;=230a Leftarrow;=21d0 LessTilde;=2272 Mellintrf;=2133 MinusPlus;=2213 NotCupCap;=226d",
    "NotExists;=2204 NotSubset;=2282+20d2 OverBrace;=23de PlusMinus;=b1 Therefore;=2234 ThinSpace;=2009",
    "TripleDot;=20db UnionPlus;=228e backprime;=2035 backsimeq;=22cd bigotimes;=2a02 centerdot;=b7",
    "checkmark;=2713 complexes;=2102 dotsquare;=22a1 downarrow;=2193 gtrapprox;=2a86 gtreqless;=22db",
    "gvertneqq;=2269+fe00 heartsuit;=2665 leftarrow;=2190 lesseqgtr;=22da lvertneqq;=2268+fe00",
    "ngeqslant;=2a7e+338 nleqslant;=2a7d+338 nparallel;=2226 nshortmid;=2224 nsubseteq;=2288",
    "nsupseteq;=2289 pitchfork;=22d4 rationals;=211a spadesuit;=2660 subseteqq;=2ac5 subsetneq;=228a",
    "supseteqq;=2ac6 supsetneq;=228b therefore;=2234 triangleq;=225c varpropto;=221d DDotrahd;=2911",
    "DotEqual;=2250 Integral;=222b LessLess;=2aa1 NotEqual;=2260 NotTilde;=2241 PartialD;=2202",
    "Precedes;=227a RightTee;=22a2 Succeeds;=227b SuchThat;=220b Superset;=2283 Uarrocir;=2949",
    "UnderBar;=5f andslope;=2a58 angmsdaa;=29a8 angmsdab;=29a9 angmsdac;=29aa angmsdad;=29ab",
    "angmsdae;=29ac angmsdaf;=29ad angmsdag;=29ae angmsdah;=29af angrtvbd;=299d approxeq;=224a",
    "awconint;=2233 backcong;=224c barwedge;=2305 bbrktbrk;=23b6 bigoplus;=2a01 bigsqcup;=2a06",
    "biguplus;=2a04 bigwedge;=22c0 boxminus;=229f boxtimes;=22a0 bsolhsub;=27c8 capbrcup;=2a49",
    "circledR;=ae circledS;=24c8 cirfnint;=2a10 clubsuit;=2663 cupbrcap;=2a48 curlyvee;=22ce",
    "cwconint;=2232 doteqdot;=2251 dotminus;=2238 drbkarow;=2910 dzigrarr;=27ff elinters;=23e7",
    "emptyset;=2205 eqvparsl;=29e5 fpartint;=2a0d geqslant;=2a7e gesdotol;=2a84 gnapprox;=2a8a",
    "hksearow;=2925 hkswarow;=2926 imagline;=2110 imagpart;=2111 infintie;=29dd integers;=2124",
    "intercal;=22ba intlarhk;=2a17 laemptyv;=29b4 ldrushar;=294b leqslant;=2a7d lesdotor;=2a83",
    "llcorner;=231e lnapprox;=2a89 lrcorner;=231f lurdshar;=294a mapstoup;=21a5 multimap;=22b8",
    "naturals;=2115 ncongdot;=2a6d+338 notindot;=22f5+338 otimesas;=2a36 parallel;=2225 plusacir;=2a23",
    "pointint;=2a15 precneqq;=2ab5 precnsim;=22e8 profalar;=232e profline;=2312 profsurf;=2313",
    "raemptyv;=29b3 realpart;=211c rppolint;=2a12 rtriltri;=29ce scpolint;=2a13 setminus;=2216",
    "shortmid;=2223 smeparsl;=29e4 sqsubset;=228f sqsupset;=2290 subseteq;=2286 succneqq;=2ab6",
    "succnsim;=22e9 supseteq;=2287 thetasym;=3d1 thicksim;=223c timesbar;=2a31 triangle;=25b5",
    "triminus;=2a3a trpezium;=23e2 ulcorner;=231c urcorner;=231d varkappa;=3f0 varsigma;=3c2",
    "vartheta;=3d1 Because;=2235 Cayleys;=212d Cconint;=2230 Cedilla;=b8 Diamond;=22c4 DownTee;=22a4",
    "Element;=2208 Epsilon;=395 Implies;=21d2 LeftTee;=22a3 NewLine;=a NoBreak;=2060 NotLess;=226e",
    "Omicron;=39f OverBar;=203e Product;=220f UpArrow;=2191 Uparrow;=21d1 Upsilon;=3a5 alefsym;=2135",
    "angrtvb;=22be angzarr;=237c asympeq;=224d backsim;=223d because;=2235 bemptyv;=29b0 between;=226c",
    "bigcirc;=25ef bigodot;=2a00 bigstar;=2605 bnequiv;=2261+20e5 boxplus;=229e ccupssm;=2a50",
    "cemptyv;=29b2 cirscir;=29c2 coloneq;=2254 congdot;=2a6d cudarrl;=2938 cudarrr;=2935 cularrp;=293d",
    "curarrm;=293c dbkarow;=290f ddagger;=2021 ddotseq;=2a77 demptyv;=29b1 diamond;=22c4 digamma;=3dd",
    "dotplus;=2214 dwangle;=29a6 epsilon;=3b5 eqcolon;=2255 equivDD;=2a78 gesdoto;=2a82 gtquest;=2a7c",
    "gtrless;=2277 harrcir;=2948 intprod;=2a3c isindot;=22f5 larrbfs;=291f larrsim;=2973 lbrksld;=298f",
    "lbrkslu;=298d ldrdhar;=2967 lesdoto;=2a81 lessdot;=22d6 lessgtr;=2276 lesssim;=2272 lotimes;=2a34",
    "lozenge;=25ca ltquest;=2a7b luruhar;=2966 maltese;=2720 minusdu;=2a2a napprox;=2249 natural;=266e",
    "nearrow;=2197 nexists;=2204 notinva;=2209 notinvb;=22f7 notinvc;=22f6 notniva;=220c notnivb;=22fe",
    "notnivc;=22fd npolint;=2a14 npreceq;=2aaf+338 nsqsube;=22e2 nsqsupe;=22e3 nsubset;=2282+20d2",
    "nsucceq;=2ab0+338 nsupset;=2283+20d2 nvinfin;=29de nvltrie;=22b4+20d2 nvrtrie;=22b5+20d2",
    "nwarrow;=2196 olcross;=29bb omicron;=3bf orderof;=2134 orslope;=2a57 pertenk;=2031 planckh;=210e",
    "pluscir;=2a22 plussim;=2a26 plustwo;=2a27 precsim;=227e quatint;=2a16 questeq;=225f rarrbfs;=2920",
    "rarrsim;=2974 rbrksld;=298e rbrkslu;=2990 rdldhar;=2969 realine;=211b rotimes;=2a35 ruluhar;=2968",
    "searrow;=2198 simplus;=2a24 simrarr;=2972 subedot;=2ac3 submult;=2ac1 subplus;=2abf subrarr;=2979",
    "succsim;=227f supdsub;=2ad8 supedot;=2ac4 suphsol;=27c9 suphsub;=2ad7 suplarr;=297b supmult;=2ac2",
    "supplus;=2ac0 swarrow;=2199 topfork;=2ada triplus;=2a39 tritime;=2a3b uparrow;=2191 upsilon;=3c5",
    "uwangle;=29a7 vzigzag;=299a zigrarr;=21dd Aacute;=c1 Abreve;=102 Agrave;=c0 Assign;=2254 Atilde;=c3",
    "Barwed;=2306 Bumpeq;=224e Cacute;=106 Ccaron;=10c Ccedil;=c7 Colone;=2a74 Conint;=222f CupCap;=224d",
    "Dagger;=2021 Dcaron;=10e DotDot;=20dc Dstrok;=110 Eacute;=c9 Ecaron;=11a Egrave;=c8 Exists;=2203",
    "ForAll;=2200 Gammad;=3dc Gbreve;=11e Gcedil;=122 HARDcy;=42a Hstrok;=126 Iacute;=cd Igrave;=cc",
    "Itilde;=128 Jsercy;=408 Kcedil;=136 Lacute;=139 Lambda;=39b Lcaron;=13d Lcedil;=13b Lmidot;=13f",
    "Lstrok;=141 Nacute;=143 Ncaron;=147 Ncedil;=145 Ntilde;=d1 Oacute;=d3 Odblac;=150 Ograve;=d2",
    "Oslash;=d8 Otilde;=d5 Otimes;=2a37 Racute;=154 Rarrtl;=2916 Rcaron;=158 Rcedil;=156 SHCHcy;=429",
    "SOFTcy;=42c Sacute;=15a Scaron;=160 Scedil;=15e Square;=25a1 Subset;=22d0 Supset;=22d1 Tcaron;=164",
    "Tcedil;=162 Tstrok;=166 Uacute;=da Ubreve;=16c Udblac;=170 Ugrave;=d9 Utilde;=168 Vdashl;=2ae6",
    "Verbar;=2016 Vvdash;=22aa Yacute;=dd Zacute;=179 Zcaron;=17d aacute;=e1 abreve;=103 agrave;=e0",
    "andand;=2a55 angmsd;=2221 angsph;=2222 apacir;=2a6f approx;=2248 atilde;=e3 barvee;=22bd",
    "barwed;=2305 becaus;=2235 bernou;=212c bigcap;=22c2 bigcup;=22c3 bigvee;=22c1 bkarow;=290d",
    "bottom;=22a5 bowtie;=22c8 boxbox;=29c9 bprime;=2035 brvbar;=a6 bullet;=2022 bumpeq;=224f cacute;=107",
    "capand;=2a44 capcap;=2a4b capcup;=2a47 capdot;=2a40 ccaron;=10d ccedil;=e7 circeq;=2257 cirmid;=2aef",
    "colone;=2254 commat;=40 compfn;=2218 conint;=222e coprod;=2210 copysr;=2117 cularr;=21b6",
    "cupcap;=2a46 cupcup;=2a4a cupdot;=228d curarr;=21b7 curren;=a4 cylcty;=232d dagger;=2020",
    "daleth;=2138 dcaron;=10f dfisht;=297f divide;=f7 divonx;=22c7 dlcorn;=231e dlcrop;=230d dollar;=24",
    "drcorn;=231f drcrop;=230c dstrok;=111 eacute;=e9 easter;=2a6e ecaron;=11b ecolon;=2255 egrave;=e8",
    "egsdot;=2a98 elsdot;=2a97 emptyv;=2205 emsp13;=2004 emsp14;=2005 eparsl;=29e3 eqcirc;=2256",
    "equals;=3d equest;=225f female;=2640 ffilig;=fb03 ffllig;=fb04 forall;=2200 frac12;=bd frac13;=2153",
    "frac14;=bc frac15;=2155 frac16;=2159 frac18;=215b frac23;=2154 frac25;=2156 frac34;=be frac35;=2157",
    "frac38;=215c frac45;=2158 frac56;=215a frac58;=215d frac78;=215e gacute;=1f5 gammad;=3dd gbreve;=11f",
    "gesdot;=2a80 gesles;=2a94 gtlPar;=2995 gtrarr;=2978 gtrdot;=22d7 gtrsim;=2273 hairsp;=200a",
    "hamilt;=210b hardcy;=44a hearts;=2665 hellip;=2026 hercon;=22b9 homtht;=223b horbar;=2015",
    "hslash;=210f hstrok;=127 hybull;=2043 hyphen;=2010 iacute;=ed igrave;=ec iiiint;=2a0c iinfin;=29dc",
    "incare;=2105 inodot;=131 intcal;=22ba iquest;=bf isinsv;=22f3 itilde;=129 jsercy;=458 kappav;=3f0",
    "kcedil;=137 kgreen;=138 lAtail;=291b lacute;=13a lagran;=2112 lambda;=3bb langle;=27e8 larrfs;=291d",
    "larrhk;=21a9 larrlp;=21ab larrpl;=2939 larrtl;=21a2 latail;=2919 lbrace;=7b lbrack;=5b lcaron;=13e",
    "lcedil;=13c ldquor;=201e lesdot;=2a7f lesges;=2a93 lfisht;=297c lfloor;=230a lharul;=296a",
    "llhard;=296b lmidot;=140 lmoust;=23b0 loplus;=2a2d lowast;=2217 lowbar;=5f lparlt;=2993 lrhard;=296d",
    "lsaquo;=2039 lsquor;=201a lstrok;=142 lthree;=22cb ltimes;=22c9 ltlarr;=2976 ltrPar;=2996",
    "mapsto;=21a6 marker;=25ae mcomma;=2a29 midast;=2a midcir;=2af0 middot;=b7 minusb;=229f minusd;=2238",
    "mnplus;=2213 models;=22a7 mstpos;=223e nVDash;=22af nVdash;=22ae nacute;=144 nbumpe;=224f+338",
    "ncaron;=148 ncedil;=146 nearhk;=2924 nequiv;=2262 nesear;=2928 nexist;=2204 nltrie;=22ec",
    "notinE;=22f9+338 nparsl;=2afd+20e5 nprcue;=22e0 nrarrc;=2933+338 nrarrw;=219d+338 nrtrie;=22ed",
    "nsccue;=22e1 nsimeq;=2244 ntilde;=f1 numero;=2116 nvDash;=22ad nvHarr;=2904 nvdash;=22ac",
    "nvlArr;=2902 nvrArr;=2903 nwarhk;=2923 nwnear;=2927 oacute;=f3 odblac;=151 odsold;=29bc ograve;=f2",
    "ominus;=2296 origof;=22b6 oslash;=f8 otilde;=f5 otimes;=2297 parsim;=2af3 percnt;=25 period;=2e",
    "permil;=2030 phmmat;=2133 planck;=210f plankv;=210f plusdo;=2214 plusdu;=2a25 plusmn;=b1",
    "preceq;=2aaf primes;=2119 prnsim;=22e8 propto;=221d prurel;=22b0 puncsp;=2008 qprime;=2057",
    "rAtail;=291c racute;=155 rangle;=27e9 rarrap;=2975 rarrfs;=291e rarrhk;=21aa rarrlp;=21ac",
    "rarrpl;=2945 rarrtl;=21a3 ratail;=291a rbrace;=7d rbrack;=5d rcaron;=159 rcedil;=157 rdquor;=201d",
    "rfisht;=297d rfloor;=230b rharul;=296c rmoust;=23b1 roplus;=2a2e rpargt;=2994 rsaquo;=203a",
    "rsquor;=2019 rthree;=22cc rtimes;=22ca sacute;=15b scaron;=161 scedil;=15f scnsim;=22e9 searhk;=2925",
    "seswar;=2929 sfrown;=2322 shchcy;=449 sigmaf;=3c2 sigmav;=3c2 simdot;=2a6a smashp;=2a33 softcy;=44c",
    "solbar;=233f spades;=2660 sqcaps;=2293+fe00 sqcups;=2294+fe00 sqsube;=2291 sqsupe;=2292 square;=25a1",
    "squarf;=25aa ssetmn;=2216 ssmile;=2323 sstarf;=22c6 subdot;=2abd subset;=2282 subsim;=2ac7",
    "subsub;=2ad5 subsup;=2ad3 succeq;=2ab0 supdot;=2abe supset;=2283 supsim;=2ac8 supsub;=2ad4",
    "supsup;=2ad6 swarhk;=2926 swnwar;=292a target;=2316 tcaron;=165 tcedil;=163 telrec;=2315",
    "there4;=2234 thetav;=3d1 thinsp;=2009 thksim;=223c timesb;=22a0 timesd;=2a30 topbot;=2336",
    "topcir;=2af1 tprime;=2034 tridot;=25ec tstrok;=167 uacute;=fa ubreve;=16d udblac;=171 ufisht;=297e",
    "ugrave;=f9 ulcorn;=231c ulcrop;=230f urcorn;=231d urcrop;=230e utilde;=169 vangrt;=299c varphi;=3d5",
    "varrho;=3f1 veebar;=22bb vellip;=22ee verbar;=7c vsubnE;=2acb+fe00 vsubne;=228a+fe00",
    "vsupnE;=2acc+fe00 vsupne;=228b+fe00 wedbar;=2a5f wedgeq;=2259 weierp;=2118 wreath;=2240 xoplus;=2a01",
    "xotime;=2a02 xsqcup;=2a06 xuplus;=2a04 xwedge;=22c0 yacute;=fd zacute;=17a zcaron;=17e zeetrf;=2128",
    "AElig;=c6 Aacute=c1 Acirc;=c2 Agrave=c0 Alpha;=391 Amacr;=100 Aogon;=104 Aring;=c5 Atilde=c3",
    "Breve;=2d8 Ccedil=c7 Ccirc;=108 Colon;=2237 Cross;=2a2f Dashv;=2ae4 Delta;=394 Eacute=c9 Ecirc;=ca",
    "Egrave=c8 Emacr;=112 Eogon;=118 Equal;=2a75 Gamma;=393 Gcirc;=11c Hacek;=2c7 Hcirc;=124 IJlig;=132",
    "Iacute=cd Icirc;=ce Igrave=cc Imacr;=12a Iogon;=12e Iukcy;=406 Jcirc;=134 Jukcy;=404 Kappa;=39a",
    "Ntilde=d1 OElig;=152 Oacute=d3 Ocirc;=d4 Ograve=d2 Omacr;=14c Omega;=3a9 Oslash=d8 Otilde=d5",
    "Prime;=2033 RBarr;=2910 Scirc;=15c Sigma;=3a3 THORN;=de TRADE;=2122 TSHcy;=40b Theta;=398",
    "Tilde;=223c Uacute=da Ubrcy;=40e Ucirc;=db Ugrave=d9 Umacr;=16a Union;=22c3 Uogon;=172 UpTee;=22a5",
    "Uring;=16e VDash;=22ab Vdash;=22a9 Wcirc;=174 Wedge;=22c0 Yacute=dd Ycirc;=176 aacute=e1 acirc;=e2",
    "acute;=b4 aelig;=e6 agrave=e0 aleph;=2135 alpha;=3b1 amacr;=101 amalg;=2a3f angle;=2220 angrt;=221f",
    "angst;=c5 aogon;=105 aring;=e5 asymp;=2248 atilde=e3 awint;=2a11 bcong;=224c bdquo;=201e bepsi;=3f6",
    "blank;=2423 blk12;=2592 blk14;=2591 blk34;=2593 block;=2588 boxDL;=2557 boxDR;=2554 boxDl;=2556",
    "boxDr;=2553 boxHD;=2566 boxHU;=2569 boxHd;=2564 boxHu;=2567 boxUL;=255d boxUR;=255a boxUl;=255c",
    "boxUr;=2559 boxVH;=256c boxVL;=2563 boxVR;=2560 boxVh;=256b boxVl;=2562 boxVr;=255f boxdL;=2555",
    "boxdR;=2552 boxdl;=2510 boxdr;=250c boxhD;=2565 boxhU;=2568 boxhd;=252c boxhu;=2534 boxuL;=255b",
    "boxuR;=2558 boxul;=2518 boxur;=2514 boxvH;=256a boxvL;=2561 boxvR;=255e boxvh;=253c boxvl;=2524",
    "boxvr;=251c breve;=2d8 brvbar=a6 bsemi;=204f bsime;=22cd bsolb;=29c5 bumpE;=2aae bumpe;=224f",
    "caret;=2041 caron;=2c7 ccaps;=2a4d ccedil=e7 ccirc;=109 ccups;=2a4c cedil;=b8 check;=2713",
    "clubs;=2663 colon;=3a comma;=2c crarr;=21b5 cross;=2717 csube;=2ad1 csupe;=2ad2 ctdot;=22ef",
    "cuepr;=22de cuesc;=22df cupor;=2a45 curren=a4 cuvee;=22ce cuwed;=22cf cwint;=2231 dashv;=22a3",
    "dblac;=2dd ddarr;=21ca delta;=3b4 dharl;=21c3 dharr;=21c2 diams;=2666 disin;=22f2 divide=f7",
    "doteq;=2250 dtdot;=22f1 dtrif;=25be duarr;=21f5 duhar;=296f eDDot;=2a77 eacute=e9 ecirc;=ea",
    "efDot;=2252 egrave=e8 emacr;=113 empty;=2205 eogon;=119 eplus;=2a71 epsiv;=3f5 eqsim;=2242",
    "equiv;=2261 erDot;=2253 erarr;=2971 esdot;=2250 exist;=2203 fflig;=fb00 filig;=fb01 fjlig;=66+6a",
    "fllig;=fb02 fltns;=25b1 forkv;=2ad9 frac12=bd frac14=bc frac34=be frasl;=2044 frown;=2322 gamma;=3b3",
    "gcirc;=11d gescc;=2aa9 gimel;=2137 gneqq;=2269 gnsim;=22e7 grave;=60 gsime;=2a8e gsiml;=2a90",
    "gtcir;=2a7a gtdot;=22d7 harrw;=21ad hcirc;=125 hoarr;=21ff iacute=ed icirc;=ee iexcl;=a1 igrave=ec",
    "iiint;=222d iiota;=2129 ijlig;=133 imacr;=12b image;=2111 imath;=131 imped;=1b5 infin;=221e",
    "iogon;=12f iprod;=2a3c iquest=bf isinE;=22f9 isins;=22f4 isinv;=2208 iukcy;=456 jcirc;=135",
    "jmath;=237 jukcy;=454 kappa;=3ba lAarr;=21da lBarr;=290e langd;=2991 laquo;=ab larrb;=21e4",
    "lates;=2aad+fe00 lbarr;=290c lbbrk;=2772 lbrke;=298b lceil;=2308 ldquo;=201c lescc;=2aa8 lhard;=21bd",
    "lharu;=21bc lhblk;=2584 llarr;=21c7 lltri;=25fa lneqq;=2268 lnsim;=22e6 loang;=27ec loarr;=21fd",
    "lobrk;=27e6 lopar;=2985 lrarr;=21c6 lrhar;=21cb lrtri;=22bf lsime;=2a8d lsimg;=2a8f lsquo;=2018",
    "ltcir;=2a79 ltdot;=22d6 ltrie;=22b4 ltrif;=25c2 mDDot;=223a mdash;=2014 micro;=b5 middot=b7",
    "minus;=2212 mumap;=22b8 nabla;=2207 napid;=224b+338 napos;=149 natur;=266e nbump;=224e+338",
    "ncong;=2247 ndash;=2013 neArr;=21d7 nearr;=2197 nedot;=2250+338 nesim;=2242+338 ngeqq;=2267+338",
    "ngsim;=2275 nhArr;=21ce nharr;=21ae nhpar;=2af2 nlArr;=21cd nlarr;=219a nleqq;=2266+338 nless;=226e",
    "nlsim;=2274 nltri;=22ea notin;=2209 notni;=220c npart;=2202+338 nprec;=2280 nrArr;=21cf nrarr;=219b",
    "nrtri;=22eb nsime;=2244 nsmid;=2224 nspar;=2226 nsubE;=2ac5+338 nsube;=2288 nsucc;=2281",
    "nsupE;=2ac6+338 nsupe;=2289 ntilde=f1 numsp;=2007 nvsim;=223c+20d2 nwArr;=21d6 nwarr;=2196 oacute=f3",
    "ocirc;=f4 odash;=229d oelig;=153 ofcir;=29bf ograve=f2 ohbar;=29b5 olarr;=21ba olcir;=29be",
    "oline;=203e omacr;=14d omega;=3c9 operp;=29b9 oplus;=2295 orarr;=21bb order;=2134 oslash=f8",
    "otilde=f5 ovbar;=233d parsl;=2afd phone;=260e plusb;=229e pluse;=2a72 plusmn=b1 pound;=a3",
    "prcue;=227c prime;=2032 prnap;=2ab9 prsim;=227e quest;=3f rAarr;=21db rBarr;=290f radic;=221a",
    "rangd;=2992 range;=29a5 raquo;=bb rarrb;=21e5 rarrc;=2933 rarrw;=219d ratio;=2236 rbarr;=290d",
    "rbbrk;=2773 rbrke;=298c rceil;=2309 rdquo;=201d reals;=211d rhard;=21c1 rharu;=21c0 rlarr;=21c4",
    "rlhar;=21cc rnmid;=2aee roang;=27ed roarr;=21fe robrk;=27e7 ropar;=2986 rrarr;=21c9 rsquo;=2019",
    "rtrie;=22b5 rtrif;=25b8 sbquo;=201a sccue;=227d scirc;=15d scnap;=2aba scsim;=227f sdotb;=22a1",
    "sdote;=2a66 seArr;=21d8 searr;=2198 setmn;=2216 sharp;=266f sigma;=3c3 simeq;=2243 simgE;=2aa0",
    "simlE;=2a9f simne;=2246 slarr;=2190 smile;=2323 smtes;=2aac+fe00 sqcap;=2293 sqcup;=2294 sqsub;=228f",
    "sqsup;=2290 srarr;=2192 starf;=2605 strns;=af subnE;=2acb subne;=228a supnE;=2acc supne;=228b",
    "swArr;=21d9 swarr;=2199 szlig;=df theta;=3b8 thkap;=2248 thorn;=fe tilde;=2dc times;=d7 trade;=2122",
    "trisb;=29cd tshcy;=45b twixt;=226c uacute=fa ubrcy;=45e ucirc;=fb udarr;=21c5 udhar;=296e ugrave=f9",
    "uharl;=21bf uharr;=21be uhblk;=2580 ultri;=25f8 umacr;=16b uogon;=173 uplus;=228e upsih;=3d2",
    "uring;=16f urtri;=25f9 utdot;=22f0 utrif;=25b4 uuarr;=21c8 vBarv;=2ae9 vDash;=22a8 varpi;=3d6",
    "vdash;=22a2 veeeq;=225a vltri;=22b2 vnsub;=2282+20d2 vnsup;=2283+20d2 vprop;=221d vrtri;=22b3",
    "wcirc;=175 wedge;=2227 xcirc;=25ef xdtri;=25bd xhArr;=27fa xharr;=27f7 xlArr;=27f8 xlarr;=27f5",
    "xodot;=2a00 xrArr;=27f9 xrarr;=27f6 xutri;=25b3 yacute=fd ycirc;=177 AElig=c6 Acirc=c2 Aopf;=1d538",
    "Aring=c5 Ascr;=1d49c Auml;=c4 Barv;=2ae7 Beta;=392 Bopf;=1d539 Bscr;=212c CHcy;=427 COPY;=a9",
    "Cdot;=10a Copf;=2102 Cscr;=1d49e DJcy;=402 DScy;=405 DZcy;=40f Darr;=21a1 Dopf;=1d53b Dscr;=1d49f",
    "Ecirc=ca Edot;=116 Eopf;=1d53c Escr;=2130 Esim;=2a73 Euml;=cb Fopf;=1d53d Fscr;=2131 GJcy;=403",
    "Gdot;=120 Gopf;=1d53e Gscr;=1d4a2 Hopf;=210d Hscr;=210b IEcy;=415 IOcy;=401 Icirc=ce Idot;=130",
    "Iopf;=1d540 Iota;=399 Iscr;=2110 Iuml;=cf Jopf;=1d541 Jscr;=1d4a5 KHcy;=425 KJcy;=40c Kopf;=1d542",
    "Kscr;=1d4a6 LJcy;=409 Lang;=27ea Larr;=219e Lopf;=1d543 Lscr;=2112 Mopf;=1d544 Mscr;=2133 NJcy;=40a",
    "Nopf;=2115 Nscr;=1d4a9 Ocirc=d4 Oopf;=1d546 Oscr;=1d4aa Ouml;=d6 Popf;=2119 Pscr;=1d4ab QUOT;=22",
    "Qopf;=211a Qscr;=1d4ac Rang;=27eb Rarr;=21a0 Ropf;=211d Rscr;=211b SHcy;=428 Sopf;=1d54a Sqrt;=221a",
    "Sscr;=1d4ae Star;=22c6 THORN=de TScy;=426 Topf;=1d54b Tscr;=1d4af Uarr;=219f Ucirc=db Uopf;=1d54c",
    "Upsi;=3d2 Uscr;=1d4b0 Uuml;=dc Vbar;=2aeb Vert;=2016 Vopf;=1d54d Vscr;=1d4b1 Wopf;=1d54e Wscr;=1d4b2",
    "Xopf;=1d54f Xscr;=1d4b3 YAcy;=42f YIcy;=407 YUcy;=42e Yopf;=1d550 Yscr;=1d4b4 Yuml;=178 ZHcy;=416",
    "Zdot;=17b Zeta;=396 Zopf;=2124 Zscr;=1d4b5 acirc=e2 acute=b4 aelig=e6 andd;=2a5c andv;=2a5a",
    "ange;=29a4 aopf;=1d552 apid;=224b apos;=27 aring=e5 ascr;=1d4b6 auml;=e4 bNot;=2aed bbrk;=23b5",
    "beta;=3b2 beth;=2136 bnot;=2310 bopf;=1d553 boxH;=2550 boxV;=2551 boxh;=2500 boxv;=2502 bscr;=1d4b7",
    "bsim;=223d bsol;=5c bull;=2022 bump;=224e caps;=2229+fe00 cdot;=10b cedil=b8 cent;=a2 chcy;=447",
    "cirE;=29c3 circ;=2c6 cire;=2257 comp;=2201 cong;=2245 copf;=1d554 copy;=a9 cscr;=1d4b8 csub;=2acf",
    "csup;=2ad0 cups;=222a+fe00 dArr;=21d3 dHar;=2965 darr;=2193 dash;=2010 diam;=22c4 djcy;=452",
    "dopf;=1d555 dscr;=1d4b9 dscy;=455 dsol;=29f6 dtri;=25bf dzcy;=45f eDot;=2251 ecir;=2256 ecirc=ea",
    "edot;=117 emsp;=2003 ensp;=2002 eopf;=1d556 epar;=22d5 epsi;=3b5 escr;=212f esim;=2242 euml;=eb",
    "euro;=20ac excl;=21 flat;=266d fnof;=192 fopf;=1d557 fork;=22d4 fscr;=1d4bb gdot;=121 geqq;=2267",
    "gesl;=22db+fe00 gjcy;=453 gnap;=2a8a gneq;=2a88 gopf;=1d558 gscr;=210a gsim;=2273 gtcc;=2aa7",
    "gvnE;=2269+fe00 hArr;=21d4 half;=bd harr;=2194 hbar;=210f hopf;=1d559 hscr;=1d4bd icirc=ee iecy;=435",
    "iexcl=a1 imof;=22b7 iocy;=451 iopf;=1d55a iota;=3b9 iscr;=1d4be isin;=2208 iuml;=ef jopf;=1d55b",
    "jscr;=1d4bf khcy;=445 kjcy;=45c kopf;=1d55c kscr;=1d4c0 lArr;=21d0 lHar;=2962 lang;=27e8 laquo=ab",
    "larr;=2190 late;=2aad lcub;=7b ldca;=2936 ldsh;=21b2 leqq;=2266 lesg;=22da+fe00 ljcy;=459 lnap;=2a89",
    "lneq;=2a87 lopf;=1d55d lozf;=29eb lpar;=28 lscr;=1d4c1 lsim;=2272 lsqb;=5b ltcc;=2aa6 ltri;=25c3",
    "lvnE;=2268+fe00 macr;=af male;=2642 malt;=2720 micro=b5 mlcp;=2adb mldr;=2026 mopf;=1d55e",
    "mscr;=1d4c2 nGtv;=226b+338 nLtv;=226a+338 nang;=2220+20d2 napE;=2a70+338 nbsp;=a0 ncap;=2a43",
    "ncup;=2a42 ngeq;=2271 nges;=2a7e+338 ngtr;=226f nisd;=22fa njcy;=45a nldr;=2025 nleq;=2270",
    "nles;=2a7d+338 nmid;=2224 nopf;=1d55f npar;=2226 npre;=2aaf+338 nsce;=2ab0+338 nscr;=1d4c3",
    "nsim;=2241 nsub;=2284 nsup;=2285 ntgl;=2279 ntlg;=2278 nvap;=224d+20d2 nvge;=2265+20d2 nvgt;=3e+20d2",
    "nvle;=2264+20d2 nvlt;=3c+20d2 oast;=229b ocir;=229a ocirc=f4 odiv;=2a38 odot;=2299 ogon;=2db",
    "oint;=222e omid;=29b6 oopf;=1d560 opar;=29b7 ordf;=aa ordm;=ba oror;=2a56 oscr;=2134 osol;=2298",
    "ouml;=f6 para;=b6 part;=2202 perp;=22a5 phiv;=3d5 plus;=2b popf;=1d561 pound=a3 prap;=2ab7",
    "prec;=227a prnE;=2ab5 prod;=220f prop;=221d pscr;=1d4c5 qint;=2a0c qopf;=1d562 qscr;=1d4c6 quot;=22",
    "rArr;=21d2 rHar;=2964 race;=223d+331 rang;=27e9 raquo=bb rarr;=2192 rcub;=7d rdca;=2937 rdsh;=21b3",
    "real;=211c rect;=25ad rhov;=3f1 ring;=2da ropf;=1d563 rpar;=29 rscr;=1d4c7 rsqb;=5d rtri;=25b9",
    "scap;=2ab8 scnE;=2ab6 sdot;=22c5 sect;=a7 semi;=3b sext;=2736 shcy;=448 sime;=2243 simg;=2a9e",
    "siml;=2a9d smid;=2223 smte;=2aac solb;=29c4 sopf;=1d564 spar;=2225 squf;=25aa sscr;=1d4c8 star;=2606",
    "subE;=2ac5 sube;=2286 succ;=227b sung;=266a sup1;=b9 sup2;=b2 sup3;=b3 supE;=2ac6 supe;=2287",
    "szlig=df tbrk;=23b4 tdot;=20db thorn=fe times=d7 tint;=222d toea;=2928 topf;=1d565 tosa;=2929",
    "trie;=225c tscr;=1d4c9 tscy;=446 uArr;=21d1 uHar;=2963 uarr;=2191 ucirc=fb uopf;=1d566 upsi;=3c5",
    "uscr;=1d4ca utri;=25b5 uuml;=fc vArr;=21d5 vBar;=2ae8 varr;=2195 vert;=7c vopf;=1d567 vscr;=1d4cb",
    "wopf;=1d568 wscr;=1d4cc xcap;=22c2 xcup;=22c3 xmap;=27fc xnis;=22fb xopf;=1d569 xscr;=1d4cd",
    "xvee;=22c1 yacy;=44f yicy;=457 yopf;=1d56a yscr;=1d4ce yucy;=44e yuml;=ff zdot;=17c zeta;=3b6",
    "zhcy;=436 zopf;=1d56b zscr;=1d4cf zwnj;=200c AMP;=26 Acy;=410 Afr;=1d504 And;=2a53 Auml=c4 Bcy;=411",
    "Bfr;=1d505 COPY=a9 Cap;=22d2 Cfr;=212d Chi;=3a7 Cup;=22d3 Dcy;=414 Del;=2207 Dfr;=1d507 Dot;=a8",
    "ENG;=14a ETH;=d0 Ecy;=42d Efr;=1d508 Eta;=397 Euml=cb Fcy;=424 Ffr;=1d509 Gcy;=413 Gfr;=1d50a",
    "Hat;=5e Hfr;=210c Icy;=418 Ifr;=2111 Int;=222c Iuml=cf Jcy;=419 Jfr;=1d50d Kcy;=41a Kfr;=1d50e",
    "Lcy;=41b Lfr;=1d50f Lsh;=21b0 Map;=2905 Mcy;=41c Mfr;=1d510 Ncy;=41d Nfr;=1d511 Not;=2aec Ocy;=41e",
    "Ofr;=1d512 Ouml=d6 Pcy;=41f Pfr;=1d513 Phi;=3a6 Psi;=3a8 QUOT=22 Qfr;=1d514 REG;=ae Rcy;=420",
    "Rfr;=211c Rho;=3a1 Rsh;=21b1 Scy;=421 Sfr;=1d516 Sub;=22d0 Sum;=2211 Sup;=22d1 Tab;=9 Tau;=3a4",
    "Tcy;=422 Tfr;=1d517 Ucy;=423 Ufr;=1d518 Uuml=dc Vcy;=412 Vee;=22c1 Vfr;=1d519 Wfr;=1d51a Xfr;=1d51b",
    "Ycy;=42b Yfr;=1d51c Zcy;=417 Zfr;=2128 acE;=223e+333 acd;=223f acy;=430 afr;=1d51e amp;=26 and;=2227",
    "ang;=2220 apE;=2a70 ape;=224a ast;=2a auml=e4 bcy;=431 bfr;=1d51f bne;=3d+20e5 bot;=22a5 cap;=2229",
    "cent=a2 cfr;=1d520 chi;=3c7 cir;=25cb copy=a9 cup;=222a dcy;=434 deg;=b0 dfr;=1d521 die;=a8 div;=f7",
    "dot;=2d9 ecy;=44d efr;=1d522 egs;=2a96 ell;=2113 els;=2a95 eng;=14b eta;=3b7 eth;=f0 euml=eb",
    "fcy;=444 ffr;=1d523 gEl;=2a8c gap;=2a86 gcy;=433 gel;=22db geq;=2265 ges;=2a7e gfr;=1d524 ggg;=22d9",
    "glE;=2a92 gla;=2aa5 glj;=2aa4 gnE;=2269 gne;=2a88 hfr;=1d525 icy;=438 iff;=21d4 ifr;=1d526 int;=222b",
    "iuml=ef jcy;=439 jfr;=1d527 kcy;=43a kfr;=1d528 lEg;=2a8b lap;=2a85 lat;=2aab lcy;=43b leg;=22da",
    "leq;=2264 les;=2a7d lfr;=1d529 lgE;=2a91 lnE;=2268 lne;=2a87 loz;=25ca lrm;=200e lsh;=21b0 macr=af",
    "map;=21a6 mcy;=43c mfr;=1d52a mho;=2127 mid;=2223 nGg;=22d9+338 nGt;=226b+20d2 nLl;=22d8+338",
    "nLt;=226a+20d2 nap;=2249 nbsp=a0 ncy;=43d nfr;=1d52b ngE;=2267+338 nge;=2271 ngt;=226f nis;=22fc",
    "niv;=220b nlE;=2266+338 nle;=2270 nlt;=226e not;=ac npr;=2280 nsc;=2281 num;=23 ocy;=43e ofr;=1d52c",
    "ogt;=29c1 ohm;=3a9 olt;=29c0 ord;=2a5d ordf=aa ordm=ba orv;=2a5b ouml=f6 par;=2225 para=b6 pcy;=43f",
    "pfr;=1d52d phi;=3c6 piv;=3d6 prE;=2ab3 pre;=2aaf psi;=3c8 qfr;=1d52e quot=22 rcy;=440 reg;=ae",
    "rfr;=1d52f rho;=3c1 rlm;=200f rsh;=21b1 scE;=2ab4 sce;=2ab0 scy;=441 sect=a7 sfr;=1d530 shy;=ad",
    "sim;=223c smt;=2aaa sol;=2f squ;=25a1 sub;=2282 sum;=2211 sup1=b9 sup2=b2 sup3=b3 sup;=2283 tau;=3c4",
    "tcy;=442 tfr;=1d531 top;=22a4 ucy;=443 ufr;=1d532 uml;=a8 uuml=fc vcy;=432 vee;=2228 vfr;=1d533",
    "wfr;=1d534 xfr;=1d535 ycy;=44b yen;=a5 yfr;=1d536 yuml=ff zcy;=437 zfr;=1d537 zwj;=200d AMP=26",
    "DD;=2145 ETH=d0 GT;=3e Gg;=22d9 Gt;=226b Im;=2111 LT;=3c Ll;=22d8 Lt;=226a Mu;=39c Nu;=39d Or;=2a54",
    "Pi;=3a0 Pr;=2abb REG=ae Re;=211c Sc;=2abc Xi;=39e ac;=223e af;=2061 amp=26 ap;=2248 dd;=2146 deg=b0",
    "ee;=2147 eg;=2a9a el;=2a99 eth=f0 gE;=2267 ge;=2265 gg;=226b gl;=2277 gt;=3e ic;=2063 ii;=2148",
    "in;=2208 it;=2062 lE;=2266 le;=2264 lg;=2276 ll;=226a lt;=3c mp;=2213 mu;=3bc ne;=2260 ni;=220b",
    "not=ac nu;=3bd oS;=24c8 or;=2228 pi;=3c0 pm;=b1 pr;=227a reg=ae rx;=211e sc;=227b shy=ad uml=a8",
    "wp;=2118 wr;=2240 xi;=3be yen=a5 GT=3e LT=3c gt=3e lt=3c"]

def NamedReference.ofEntry? (entry : List Char) : Option NamedReference := do
  let (name, numbers) ← Text.splitOnce? '=' entry
  return ⟨name, (Text.pieces (· == '+') numbers).map fun n => Char.ofNat (Text.hexadecimalValue n)⟩

def namedReferences : List NamedReference :=
  namedReferenceLines.flatMap fun line =>
    (Text.pieces (· == ' ') line.toList).filterMap NamedReference.ofEntry?

end NoteMarkup.Html
