import Javelin.Library.SourceTree

/-!
# The core of `java.lang`

The types that the language itself depends on.
-/

namespace Javelin.Library

/-- The types that the language itself depends on. -/
def coreSources : List SourceFile :=
  [ sourceOf "java/lang/AutoCloseable.java"
    [ "package java.lang;",
      "",
      "public interface AutoCloseable \x7b",
      "    void close() throws Exception;",
      "\x7d" ],
    sourceOf "java/lang/CharSequence.java"
    [ "package java.lang;",
      "",
      "public interface CharSequence \x7b",
      "    int length();",
      "    char charAt(int index);",
      "    CharSequence subSequence(int start, int end);",
      "    String toString();",
      "    default boolean isEmpty() \x7b return length() == 0; \x7d",
      "\x7d" ],
    sourceOf "java/lang/Class.java"
    [ "package java.lang;",
      "",
      "public final class Class<T> \x7b",
      "    private Class() \x7b\x7d",
      "    public native String getName();",
      "    public native String getSimpleName();",
      "    public native boolean isInstance(Object obj);",
      "    public native T cast(Object obj);",
      "    public native boolean isArray();",
      "    public native boolean isInterface();",
      "    public native Class<? super T> getSuperclass();",
      "\x7d" ],
    sourceOf "java/lang/Cloneable.java"
    [ "package java.lang;",
      "",
      "public interface Cloneable \x7b",
      "\x7d" ],
    sourceOf "java/lang/Comparable.java"
    [ "package java.lang;",
      "",
      "public interface Comparable<T> \x7b",
      "    int compareTo(T o);",
      "\x7d" ],
    sourceOf "java/lang/Deprecated.java"
    [ "package java.lang;",
      "",
      "public @interface Deprecated \x7b",
      "    String since() default \"\";",
      "    boolean forRemoval() default false;",
      "\x7d" ],
    sourceOf "java/lang/Enum.java"
    [ "package java.lang;",
      "",
      "import java.io.Serializable;",
      "",
      "public abstract class Enum<E extends Enum<E>> implements Comparable<E>, Serializable \x7b",
      "    protected Enum(String name, int ordinal) \x7b\x7d",
      "    public final native String name();",
      "    public final native int ordinal();",
      "    public native String toString();",
      "    public final native int compareTo(E o);",
      "    public final native Class<E> getDeclaringClass();",
      "    public static native <T extends Enum<T>> T valueOf(Class<T> enumClass, String name);",
      "\x7d" ],
    sourceOf "java/lang/FunctionalInterface.java"
    [ "package java.lang;",
      "",
      "public @interface FunctionalInterface \x7b",
      "\x7d" ],
    sourceOf "java/lang/Iterable.java"
    [ "package java.lang;",
      "",
      "import java.util.Iterator;",
      "import java.util.function.Consumer;",
      "",
      "public interface Iterable<T> \x7b",
      "    Iterator<T> iterator();",
      "    default void forEach(Consumer<? super T> action) \x7b\x7d",
      "\x7d" ],
    sourceOf "java/lang/Object.java"
    [ "package java.lang;",
      "",
      "public class Object \x7b",
      "    public Object() \x7b\x7d",
      "    public final native Class<?> getClass();",
      "    public native int hashCode();",
      "    public boolean equals(Object obj) \x7b return this == obj; \x7d",
      "    protected native Object clone() throws CloneNotSupportedException;",
      "    public String toString() \x7b return null; \x7d",
      "    public final native void notify();",
      "    public final native void notifyAll();",
      "    public final native void wait() throws InterruptedException;",
      "    public final native void wait(long timeoutMillis) throws InterruptedException;",
      "    protected void finalize() throws Throwable \x7b\x7d",
      "\x7d" ],
    sourceOf "java/lang/Override.java"
    [ "package java.lang;",
      "",
      "public @interface Override \x7b",
      "\x7d" ],
    sourceOf "java/lang/Record.java"
    [ "package java.lang;",
      "",
      "public abstract class Record \x7b",
      "    protected Record() \x7b\x7d",
      "    public abstract boolean equals(Object obj);",
      "    public abstract int hashCode();",
      "    public abstract String toString();",
      "\x7d" ],
    sourceOf "java/lang/Runnable.java"
    [ "package java.lang;",
      "",
      "@FunctionalInterface",
      "public interface Runnable \x7b",
      "    void run();",
      "\x7d" ],
    sourceOf "java/lang/SafeVarargs.java"
    [ "package java.lang;",
      "",
      "public @interface SafeVarargs \x7b",
      "\x7d" ],
    sourceOf "java/lang/String.java"
    [ "package java.lang;",
      "",
      "import java.io.Serializable;",
      "",
      "public final class String implements Serializable, Comparable<String>, CharSequence \x7b",
      "    public String() \x7b\x7d",
      "    public String(String original) \x7b\x7d",
      "    public String(char[] value) \x7b\x7d",
      "    public String(char[] value, int offset, int count) \x7b\x7d",
      "    public String(byte[] bytes) \x7b\x7d",
      "    public native int length();",
      "    public native boolean isEmpty();",
      "    public native char charAt(int index);",
      "    public native CharSequence subSequence(int beginIndex, int endIndex);",
      "    public native String substring(int beginIndex);",
      "    public native String substring(int beginIndex, int endIndex);",
      "    public native int indexOf(int ch);",
      "    public native int indexOf(String str);",
      "    public native int lastIndexOf(int ch);",
      "    public native boolean startsWith(String prefix);",
      "    public native boolean endsWith(String suffix);",
      "    public native boolean contains(CharSequence s);",
      "    public native boolean equals(Object anObject);",
      "    public native boolean equalsIgnoreCase(String anotherString);",
      "    public native int hashCode();",
      "    public native int compareTo(String anotherString);",
      "    public native String concat(String str);",
      "    public native String replace(char oldChar, char newChar);",
      "    public native String replace(CharSequence target, CharSequence replacement);",
      "    public native String trim();",
      "    public native String strip();",
      "    public native String toLowerCase();",
      "    public native String toUpperCase();",
      "    public native String[] split(String regex);",
      "    public native char[] toCharArray();",
      "    public native byte[] getBytes();",
      "    public native String repeat(int count);",
      "    public native String toString();",
      "    public native String intern();",
      "    public static native String valueOf(Object obj);",
      "    public static native String valueOf(char[] data);",
      "    public static native String valueOf(boolean b);",
      "    public static native String valueOf(char c);",
      "    public static native String valueOf(int i);",
      "    public static native String valueOf(long l);",
      "    public static native String valueOf(float f);",
      "    public static native String valueOf(double d);",
      "    public static native String format(String format, Object... args);",
      "    public static native String join(CharSequence delimiter, CharSequence... elements);",
      "\x7d" ],
    sourceOf "java/lang/StringBuilder.java"
    [ "package java.lang;",
      "",
      "public final class StringBuilder implements CharSequence \x7b",
      "    public StringBuilder() \x7b\x7d",
      "    public StringBuilder(int capacity) \x7b\x7d",
      "    public StringBuilder(String str) \x7b\x7d",
      "    public native StringBuilder append(Object obj);",
      "    public native StringBuilder append(String str);",
      "    public native StringBuilder append(CharSequence s);",
      "    public native StringBuilder append(char[] str);",
      "    public native StringBuilder append(boolean b);",
      "    public native StringBuilder append(char c);",
      "    public native StringBuilder append(int i);",
      "    public native StringBuilder append(long lng);",
      "    public native StringBuilder append(float f);",
      "    public native StringBuilder append(double d);",
      "    public native StringBuilder insert(int offset, String str);",
      "    public native StringBuilder reverse();",
      "    public native int length();",
      "    public native char charAt(int index);",
      "    public native CharSequence subSequence(int start, int end);",
      "    public native void setLength(int newLength);",
      "    public native String toString();",
      "\x7d" ],
    sourceOf "java/lang/SuppressWarnings.java"
    [ "package java.lang;",
      "",
      "public @interface SuppressWarnings \x7b",
      "    String[] value();",
      "\x7d" ],
    sourceOf "java/lang/System.java"
    [ "package java.lang;",
      "",
      "import java.io.InputStream;",
      "import java.io.PrintStream;",
      "",
      "public final class System \x7b",
      "    private System() \x7b\x7d",
      "    public static final InputStream in = null;",
      "    public static final PrintStream out = null;",
      "    public static final PrintStream err = null;",
      "    public static native long currentTimeMillis();",
      "    public static native long nanoTime();",
      "    public static native void arraycopy(Object src, int srcPos, Object dest, int destPos, int length);",
      "    public static native void exit(int status);",
      "    public static native String getProperty(String key);",
      "    public static native String lineSeparator();",
      "    public static native int identityHashCode(Object x);",
      "\x7d" ],
    sourceOf "java/lang/Thread.java"
    [ "package java.lang;",
      "",
      "public class Thread implements Runnable \x7b",
      "    public Thread() \x7b\x7d",
      "    public Thread(Runnable task) \x7b\x7d",
      "    public Thread(Runnable task, String name) \x7b\x7d",
      "    public native void run();",
      "    public native void start();",
      "    public final native void join() throws InterruptedException;",
      "    public native void interrupt();",
      "    public native boolean isInterrupted();",
      "    public final native String getName();",
      "    public static native Thread currentThread();",
      "    public static native void sleep(long millis) throws InterruptedException;",
      "\x7d" ],
    sourceOf "java/lang/annotation/Annotation.java"
    [ "package java.lang.annotation;",
      "",
      "public interface Annotation \x7b",
      "    boolean equals(Object obj);",
      "    int hashCode();",
      "    String toString();",
      "    Class<? extends Annotation> annotationType();",
      "\x7d" ] ]

end Javelin.Library
